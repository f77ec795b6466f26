import RemoteDebug.Proofs.Constants

/-!
# The attributes of a class file

An attribute table is read as the attributes that are written in it (`Attribute.reads_table`), at
every depth. Attributes are read by two functions that call each other, `readAll` for attributes in
a row and `interpret` for a single body. What they read is shown along their calls, in both
directions at once : the length in the head of an attribute decides what its body is, so there is
never a choice.
-/

namespace RemoteDebug.ClassFile

open Parse

/-- What is kept of an attribute. -/
def Written.Attribute.meaning : Written.Attribute → Option ClassFile.Attribute
  | .code _ maxStack maxLocals instructions _ attributes _ =>
    some (.code ⟨maxStack, maxLocals, instructions, allRows attributes⟩)
  | .lines _ rows _ => some (.lineNumbers rows)
  | .other _ _ => none

namespace Attribute

open Written (encodeAll AllValid Handler)

variable {pool : Pool}

/-! ## Heads, rows and handlers -/

/-- Looking first whether the bytes are there changes nothing. -/
theorem yields_checked {n : Nat} {e : Nat → Error} {name : String} {c : Cursor}
    {r : String × Bytes} {rest : Bytes} :
    Yields (do
      let left ← remaining
      if left < n then throw (e left) else return (name, ← bytes n)) c r rest ↔
    Yields (do return (name, ← bytes n)) c r rest := by
  change Yields (if c.remaining < n then throw (e c.remaining) else do
    return (name, ← bytes n)) c r rest ↔ _
  split
  · next hlt =>
    refine ⟨?_, fun h => ?_⟩
    · rintro ⟨c', h, -⟩
      cases h
    · obtain ⟨bs, c₁, h₁, -⟩ := yields_bind.mp h
      have := (length_bytes h₁).2
      omega
  · rfl

/-- The head of an attribute is a name index and a length, and the body follows. -/
theorem reads_head (pool : Pool) : Reads (head pool) fun r bs =>
    ∃ i, pool.text? i = some r.1 ∧ r.2.length < UInt32.size ∧
      bs = Written.word i ++ Bytes.toBig 4 r.2.length ++ r.2 := by
  refine (reads_u16.bind fun i => reads_u32.bind fun n => (reads_lift (pool.utf8 i)).bind
    fun name c r rest => yields_checked.trans
      ((reads_bytes n.toNat).map (name, ·) c r rest)).of_iff fun r bs => ?_
  constructor
  · rintro ⟨i, _, _, rfl, ⟨n, _, _, rfl, ⟨name, _, _, ⟨hname, rfl⟩, ⟨body, ⟨rfl, hn⟩, rfl⟩, rfl⟩,
      rfl⟩, rfl⟩
    refine ⟨i, Pool.utf8_eq_ok_iff.mp hname, ?_, by simp [Written.word, hn]⟩
    rw [hn]
    exact n.toNat_lt
  · rintro ⟨i, hname, hn, rfl⟩
    have hw : (UInt32.ofNat r.2.length).toNat = r.2.length := UInt32.toNat_ofNat_of_lt hn
    refine ⟨i, _, _, rfl, ⟨UInt32.ofNat r.2.length, _, _, rfl, ⟨r.1, _, _,
      ⟨Pool.utf8_eq_ok_iff.mpr hname, rfl⟩, ⟨r.2, ⟨rfl, hw.symm⟩, rfl⟩, rfl⟩, rfl⟩, ?_⟩
    simp [Written.word, hw]

theorem length_handler (h : Handler) : h.encode.length = 8 := by
  simp [Handler.encode, Written.word]

theorem exists_handler : (bs : Bytes) → bs.length = 8 → ∃ h : Handler, h.encode = bs
  | [a, b, c, d, e, f, g, h], _ => by
    obtain ⟨w₁, h₁⟩ := exists_u16 [a, b] rfl
    obtain ⟨w₂, h₂⟩ := exists_u16 [c, d] rfl
    obtain ⟨w₃, h₃⟩ := exists_u16 [e, f] rfl
    obtain ⟨w₄, h₄⟩ := exists_u16 [g, h] rfl
    exact ⟨⟨w₁, w₂, w₃, w₄⟩, by simp [Handler.encode, Written.word, h₁, h₂, h₃, h₄]⟩

theorem reads_codeHead : Reads codeHead fun front bs => ∃ handlers : List Handler,
    front.instructions.length < UInt32.size ∧ handlers.length < UInt16.size ∧
      bs = Written.word front.maxStack ++ Written.word front.maxLocals
        ++ Bytes.toBig 4 front.instructions.length ++ front.instructions
        ++ Bytes.toBig 2 handlers.length ++ handlers.flatMap Handler.encode
        ++ Written.word front.attributes := by
  refine (reads_u16.bind fun maxStack => reads_u16.bind fun maxLocals => reads_u32.bind fun n =>
    (reads_bytes n.toNat).bind fun instructions => reads_u16.bind fun k =>
      (reads_skip_mul length_handler exists_handler k.toNat).bind fun _ =>
        reads_u16.map fun attributes =>
          CodeHead.mk maxStack maxLocals instructions attributes).of_iff fun front bs => ?_
  constructor
  · rintro ⟨maxStack, _, _, rfl, ⟨maxLocals, _, _, rfl, ⟨n, _, _, rfl, ⟨instructions, _, _,
      ⟨rfl, hn⟩, ⟨k, _, _, rfl, ⟨_, _, _, ⟨handlers, hk, -, rfl⟩, ⟨attributes, rfl, rfl⟩, rfl⟩,
      rfl⟩, rfl⟩, rfl⟩, rfl⟩, rfl⟩
    refine ⟨handlers, ?_, ?_, by simp [Written.word, hn, hk]⟩
    · rw [hn]
      exact n.toNat_lt
    · rw [hk]
      exact k.toNat_lt
  · rintro ⟨handlers, hn, hk, rfl⟩
    have hn' : (UInt32.ofNat front.instructions.length).toNat = front.instructions.length :=
      UInt32.toNat_ofNat_of_lt hn
    have hk' : (UInt16.ofNat handlers.length).toNat = handlers.length :=
      UInt16.toNat_ofNat_of_lt hk
    refine ⟨front.maxStack, _, _, rfl, ⟨front.maxLocals, _, _, rfl,
      ⟨UInt32.ofNat front.instructions.length, _, _, rfl, ⟨front.instructions, _, _,
        ⟨rfl, hn'.symm⟩, ⟨UInt16.ofNat handlers.length, _, _, rfl,
          ⟨(), _, _, ⟨handlers, hk'.symm, rfl, rfl⟩, ⟨front.attributes, rfl, rfl⟩, rfl⟩,
            rfl⟩, rfl⟩, rfl⟩, rfl⟩, ?_⟩
    simp [Written.word, hn', hk']

theorem reads_row : Reads (do return LineEntry.mk (← u16) (← u16))
    (.of (fun _ => True) id Written.encodeRow) := by
  refine (reads_u16.bind fun v => reads_u16.map (LineEntry.mk v)).of_iff fun row bs => ?_
  constructor
  · rintro ⟨v, _, _, rfl, ⟨w, rfl, rfl⟩, rfl⟩
    exact ⟨⟨v, w⟩, trivial, rfl, rfl⟩
  · rintro ⟨row, -, rfl, rfl⟩
    exact ⟨row.startPc, _, _, rfl, ⟨row.line, rfl, rfl⟩, rfl⟩

theorem reads_lineTable : Reads lineTable fun rows bs =>
    rows.length < UInt16.size ∧
      bs = Bytes.toBig 2 rows.length ++ rows.flatMap Written.encodeRow := by
  refine (Reads.counted (Reads.times reads_row)).of_iff fun rows bs => ?_
  constructor
  · rintro ⟨rows, ⟨hn, -⟩, rfl, rfl⟩
    rw [List.map_id]
    exact ⟨hn, rfl⟩
  · rintro ⟨hn, rfl⟩
    exact ⟨rows, ⟨hn, by simp⟩, (List.map_id rows).symm, rfl⟩

/-! ## Attributes in a row -/

theorem readAll_zero (c : Cursor) : readAll pool 0 c = .ok ([], c) := by
  rw [readAll]

theorem except_bind_eq_ok {ε α β : Type} {x : Except ε α} {f : α → Except ε β} {b : β} :
    (x >>= f) = .ok b ↔ ∃ a, x = .ok a ∧ f a = .ok b := by
  cases x with
  | error e => exact ⟨nofun, nofun⟩
  | ok a => exact ⟨fun h => ⟨a, rfl, h⟩, fun ⟨_, ha, h⟩ => by cases ha; exact h⟩

theorem readAll_of_head {n : Nat} {c next : Cursor} {name : String} {body : Bytes}
    (h : head pool c = .ok ((name, body), next)) {as : List Attribute} {rest : Bytes} :
    Yields (readAll pool (n + 1)) c as rest ↔ ∃ first others,
      interpret pool name body = .ok first ∧ Yields (readAll pool n) next others rest ∧
        as = first.toList ++ others := by
  have heq : readAll pool (n + 1) c = do
      let first ← interpret pool name body
      let others ← readAll pool n next
      return (first.toList ++ others.1, others.2) := by
    rw [readAll]
    split
    · next e h' => rw [h] at h'; cases h'
    · next name' body' next' h' => rw [h] at h'; cases h'; rfl
  constructor
  · rintro ⟨c', h', rfl⟩
    rw [heq] at h'
    obtain ⟨first, hfirst, h'⟩ := except_bind_eq_ok.mp h'
    obtain ⟨⟨others, c''⟩, hothers, h'⟩ := except_bind_eq_ok.mp h'
    cases h'
    exact ⟨first, others, hfirst, ⟨c'', hothers, rfl⟩, rfl⟩
  · rintro ⟨first, others, hfirst, ⟨c', hothers, rfl⟩, rfl⟩
    refine ⟨c', ?_, rfl⟩
    rw [heq]
    refine except_bind_eq_ok.mpr ⟨first, hfirst, ?_⟩
    exact except_bind_eq_ok.mpr ⟨(others, c'), hothers, rfl⟩

theorem interpret_of_codeHead {body : Bytes} {front : CodeHead} {c : Cursor}
    (h : codeHead (Cursor.start body) = .ok (front, c)) {r : Option Attribute} :
    interpret pool "Code" body = .ok r ↔ ∃ inner leftover,
      Yields (readAll pool front.attributes.toNat) c inner leftover ∧
        r = some (.code ⟨front.maxStack, front.maxLocals, front.instructions, linesOf inner⟩) := by
  have heq : interpret pool "Code" body = do
      let r ← readAll pool front.attributes.toNat c
      return some (.code ⟨front.maxStack, front.maxLocals, front.instructions, linesOf r.1⟩) := by
    rw [interpret, if_pos rfl]
    split
    · next e h' => rw [h] at h'; cases h'
    · next front' c' h' => rw [h] at h'; cases h'; rfl
  rw [heq, except_bind_eq_ok]
  constructor
  · rintro ⟨⟨inner, c'⟩, h', hr⟩
    cases hr
    exact ⟨inner, c'.rest, ⟨c', h', rfl⟩, rfl⟩
  · rintro ⟨inner, leftover, ⟨c', h', -⟩, rfl⟩
    exact ⟨(inner, c'), h', rfl⟩

theorem interpret_lines {body : Bytes} {r : Option Attribute} :
    interpret pool "LineNumberTable" body = .ok r ↔ ∃ rows leftover,
      Yields lineTable (Cursor.start body) rows leftover ∧ r = some (.lineNumbers rows) := by
  rw [interpret, if_neg (by decide), if_pos rfl, except_bind_eq_ok]
  constructor
  · rintro ⟨⟨rows, c'⟩, h', hr⟩
    cases hr
    exact ⟨rows, c'.rest, ⟨c', h', rfl⟩, rfl⟩
  · rintro ⟨rows, leftover, ⟨c', h', -⟩, rfl⟩
    exact ⟨(rows, c'), h', rfl⟩

theorem linesOf_meaning (attributes : List Written.Attribute) :
    linesOf (attributes.filterMap Written.Attribute.meaning) = Written.allRows attributes := by
  induction attributes with
  | nil => rfl
  | cons a rest ih =>
    cases a with
    | code => exact ih
    | other => exact ih
    | lines name rows leftover =>
      simp only [Written.Attribute.meaning, List.filterMap_cons, linesOf, ih]
      simp only [Written.allRows, List.filterMap_cons, Written.Attribute.rows?]
      cases rest.filterMap Written.Attribute.rows? with
      | nil => simp
      | cons t ts => simp

/-! ## What is read is what is written -/

theorem exists_text {d : Written.Attribute} (hd : d.WellFormed pool) :
    ∃ text, pool.text? d.name = some text := by
  cases d with
  | code => exact ⟨_, hd.1⟩
  | lines => exact ⟨_, hd.1⟩
  | other => exact ⟨_, hd.choose_spec.1⟩

theorem allValid_cons {d : Written.Attribute} {ds : List Written.Attribute} :
    AllValid pool (d :: ds) ↔
      d.WellFormed pool ∧ d.body.length < UInt32.size ∧ AllValid pool ds := by
  rw [AllValid]

theorem filterMap_meaning_cons (d : Written.Attribute) (ds : List Written.Attribute) :
    (d :: ds).filterMap Written.Attribute.meaning =
      d.meaning.toList ++ ds.filterMap Written.Attribute.meaning := by
  cases hm : d.meaning <;> simp [hm]

/-- Reading `n` attributes at a cursor is reading `n` written ones. -/
def ReadsAll (pool : Pool) (n : Nat) (c : Cursor) : Prop :=
  ∀ as rest, Yields (readAll pool n) c as rest ↔ ∃ ds, (ds.length = n ∧ AllValid pool ds) ∧
    as = ds.filterMap Written.Attribute.meaning ∧ c.rest = encodeAll ds ++ rest

/-- A body under a name is interpreted as the written attribute with that body. -/
def Interprets (pool : Pool) (name : String) (body : Bytes) : Prop :=
  ∀ i, pool.text? i = some name → ∀ r, interpret pool name body = .ok r ↔
    ∃ d : Written.Attribute, d.name = i ∧ d.WellFormed pool ∧ d.body = body ∧ d.meaning = r

theorem readsAll_zero (c : Cursor) : ReadsAll pool 0 c := by
  intro as rest
  constructor
  · rintro ⟨c', h, rfl⟩
    rw [readAll_zero] at h
    cases h
    exact ⟨[], ⟨rfl, by simp [AllValid]⟩, rfl, by simp [encodeAll]⟩
  · rintro ⟨ds, ⟨hn, -⟩, rfl, hc⟩
    obtain rfl := List.eq_nil_of_length_eq_zero hn
    exact ⟨c, readAll_zero c, by simpa [encodeAll] using hc⟩

/-- A written attribute in front is what the head yields. -/
theorem yields_head_of_cons {c : Cursor} {d : Written.Attribute} {ds : List Written.Attribute}
    {rest : Bytes} (hds : AllValid pool (d :: ds)) (hc : c.rest = encodeAll (d :: ds) ++ rest)
    {text : String} (htext : pool.text? d.name = some text) :
    Yields (head pool) c (text, d.body) (encodeAll ds ++ rest) := by
  rw [encodeAll, List.append_assoc] at hc
  exact (reads_head pool c _ _).mpr ⟨_, ⟨d.name, htext, (allValid_cons.mp hds).2.1, rfl⟩, hc⟩

theorem readsAll_of_error {c : Cursor} {n : Nat} {e : Error} (h : head pool c = .error e) :
    ReadsAll pool (n + 1) c := by
  intro as rest
  constructor
  · rintro ⟨c', h', -⟩
    rw [readAll] at h'
    split at h'
    · cases h'
    · next h'' => rw [h] at h''; cases h''
  · rintro ⟨ds, ⟨hn, hds⟩, rfl, hc⟩
    obtain ⟨d, ds, rfl⟩ := List.exists_cons_of_length_eq_add_one hn
    obtain ⟨text, htext⟩ := exists_text (allValid_cons.mp hds).1
    obtain ⟨c', h', -⟩ := yields_head_of_cons hds hc htext
    rw [h] at h'
    cases h'

theorem readsAll_of_ok {c next : Cursor} {n : Nat} {name : String} {body : Bytes}
    (h : head pool c = .ok ((name, body), next)) (hone : Interprets pool name body)
    (hall : ReadsAll pool n next) : ReadsAll pool (n + 1) c := by
  intro as rest
  rw [readAll_of_head h]
  constructor
  · rintro ⟨first, others, hfirst, hothers, rfl⟩
    obtain ⟨ds, ⟨hn, hds⟩, rfl, hnext⟩ := (hall others rest).mp hothers
    obtain ⟨bs, ⟨i, hi, hlen, rfl⟩, hc⟩ := (reads_head pool c _ _).mp ⟨next, h, rfl⟩
    obtain ⟨d, rfl, hd, rfl, rfl⟩ := (hone i hi first).mp hfirst
    refine ⟨d :: ds, ⟨by simp [hn], allValid_cons.mpr ⟨hd, hlen, hds⟩⟩,
      (filterMap_meaning_cons d ds).symm, ?_⟩
    simp [hc, hnext, encodeAll]
  · rintro ⟨ds, ⟨hn, hds⟩, rfl, hc⟩
    obtain ⟨d, ds, rfl⟩ := List.exists_cons_of_length_eq_add_one hn
    have hd := allValid_cons.mp hds
    obtain ⟨text, htext⟩ := exists_text hd.1
    obtain ⟨c', h', hc'⟩ := yields_head_of_cons hds hc htext
    rw [h] at h'
    cases h'
    exact ⟨d.meaning, ds.filterMap Written.Attribute.meaning,
      (hone d.name htext d.meaning).mpr ⟨d, rfl, hd.1, rfl, rfl⟩,
      (hall _ rest).mpr ⟨ds, ⟨by simpa using hn, hd.2.2⟩, rfl, hc'⟩, filterMap_meaning_cons d ds⟩

/-- A written attribute under the name of code is one. -/
theorem exists_code {d : Written.Attribute} (hd : d.WellFormed pool)
    (hname : pool.text? d.name = some "Code") :
    ∃ i maxStack maxLocals instructions handlers attributes leftover,
      d = .code i maxStack maxLocals instructions handlers attributes leftover := by
  cases d with
  | code => exact ⟨_, _, _, _, _, _, _, rfl⟩
  | lines name =>
    have h := hname.symm.trans hd.1
    simp at h
  | other name =>
    obtain ⟨text, htext, hne, -⟩ := hd
    exact absurd (Option.some.inj (htext.symm.trans hname)) hne

/-- The body of a code attribute starts with the head that is read. -/
theorem yields_codeHead {maxStack maxLocals : UInt16} {instructions : Bytes}
    {handlers : List Handler} {attributes : List Written.Attribute} {leftover : Bytes} {i : UInt16}
    (hd : (Written.Attribute.code i maxStack maxLocals instructions handlers attributes
      leftover).WellFormed pool) :
    Yields codeHead (Cursor.start (Written.Attribute.code i maxStack maxLocals instructions
      handlers attributes leftover).body)
      ⟨maxStack, maxLocals, instructions, UInt16.ofNat attributes.length⟩
      (encodeAll attributes ++ leftover) := by
  obtain ⟨-, hn, hk, hcount, -⟩ := hd
  have hw : (UInt16.ofNat attributes.length).toNat = attributes.length :=
    UInt16.toNat_ofNat_of_lt hcount
  refine (reads_codeHead _ _ _).mpr ⟨_, ⟨handlers, hn, hk, rfl⟩, ?_⟩
  simp [Cursor.start, Written.Attribute.body, Written.word, hw]

theorem interprets_code_of_error {body : Bytes} {e : Error}
    (h : codeHead (Cursor.start body) = .error e) : Interprets pool "Code" body := by
  intro i hi r
  constructor
  · intro h'
    rw [interpret, if_pos rfl] at h'
    split at h'
    · cases h'
    · next h'' => rw [h] at h''; cases h''
  · rintro ⟨d, rfl, hd, rfl, rfl⟩
    obtain ⟨_, _, _, _, _, _, _, rfl⟩ := exists_code hd hi
    obtain ⟨c', h', -⟩ := yields_codeHead hd
    rw [h] at h'
    cases h'

theorem interprets_code_of_ok {body : Bytes} {front : CodeHead} {c : Cursor}
    (h : codeHead (Cursor.start body) = .ok (front, c))
    (hall : ReadsAll pool front.attributes.toNat c) : Interprets pool "Code" body := by
  intro i hi r
  rw [interpret_of_codeHead h]
  constructor
  · rintro ⟨inner, leftover, hinner, rfl⟩
    obtain ⟨attributes, ⟨hn, hvalid⟩, rfl, hc⟩ := (hall inner leftover).mp hinner
    obtain ⟨bs, ⟨handlers, hins, hk, rfl⟩, hbody⟩ :=
      (reads_codeHead _ _ _).mp ⟨c, h, rfl⟩
    have hcount : attributes.length < UInt16.size := by rw [hn]; exact front.attributes.toNat_lt
    refine ⟨.code i front.maxStack front.maxLocals front.instructions handlers attributes leftover,
      rfl, ⟨hi, hins, hk, hcount, hvalid⟩, ?_, ?_⟩
    · rw [show body = (Cursor.start body).rest from rfl, hbody, hc]
      simp [Written.Attribute.body, Written.word, hn]
    · rw [linesOf_meaning]
      rfl
  · rintro ⟨d, rfl, hd, rfl, rfl⟩
    obtain ⟨i, maxStack, maxLocals, instructions, handlers, attributes, leftover, rfl⟩ :=
      exists_code hd hi
    obtain ⟨c', h', hc'⟩ := yields_codeHead hd
    rw [h] at h'
    cases h'
    have hw : (UInt16.ofNat attributes.length).toNat = attributes.length :=
      UInt16.toNat_ofNat_of_lt hd.2.2.2.1
    refine ⟨attributes.filterMap Written.Attribute.meaning, leftover,
      (hall _ _).mpr ⟨attributes, ⟨hw.symm, hd.2.2.2.2⟩, rfl, hc'⟩, ?_⟩
    rw [linesOf_meaning]
    rfl

theorem interprets_lines (body : Bytes) : Interprets pool "LineNumberTable" body := by
  intro i hi r
  rw [interpret_lines]
  constructor
  · rintro ⟨rows, leftover, h, rfl⟩
    obtain ⟨bs, ⟨hn, rfl⟩, hbody⟩ := (reads_lineTable _ _ _).mp h
    refine ⟨.lines i rows leftover, rfl, ⟨hi, hn⟩, ?_, rfl⟩
    rw [Written.Attribute.body]
    exact hbody.symm
  · rintro ⟨d, rfl, hd, rfl, rfl⟩
    cases d with
    | code =>
      have h := hi.symm.trans hd.1
      simp at h
    | lines name rows leftover =>
      refine ⟨rows, leftover, (reads_lineTable _ _ _).mpr ⟨_, ⟨hd.2, rfl⟩, ?_⟩, rfl⟩
      rw [Written.Attribute.body]
      rfl
    | other name =>
      obtain ⟨text, htext, -, hne⟩ := hd
      exact absurd (Option.some.inj (htext.symm.trans hi)) hne

theorem interprets_other {name : String} (h₁ : name ≠ "Code") (h₂ : name ≠ "LineNumberTable")
    (body : Bytes) : Interprets pool name body := by
  intro i hi r
  rw [interpret, if_neg h₁, if_neg h₂]
  constructor
  · intro h
    cases h
    exact ⟨.other i body, rfl, ⟨name, hi, h₁, h₂⟩, by rw [Written.Attribute.body], rfl⟩
  · rintro ⟨d, rfl, hd, rfl, rfl⟩
    cases d with
    | code => exact absurd (Option.some.inj (hi.symm.trans hd.1)) h₁
    | lines => exact absurd (Option.some.inj (hi.symm.trans hd.1)) h₂
    | other => rfl

theorem readsAll (pool : Pool) (n : Nat) (c : Cursor) : ReadsAll pool n c := by
  refine (readAll.mutual_induct pool (ReadsAll pool) (Interprets pool) readsAll_zero ?_ ?_ ?_ ?_
    ?_ ?_).1 n c
  · exact fun c n e h => readsAll_of_error h
  · exact fun c n name body next h hone hall => readsAll_of_ok h hone hall
  · exact fun body e h => interprets_code_of_error h
  · exact fun body front c h hall => interprets_code_of_ok h hall
  · exact fun body _ => interprets_lines body
  · exact fun name body h₁ h₂ => interprets_other h₁ h₂ body

/-- An attribute table is read as the attributes that are written in it. -/
theorem reads_table (pool : Pool) : Reads (table pool) (.of
    (fun ds => ds.length < UInt16.size ∧ AllValid pool ds)
    (List.filterMap Written.Attribute.meaning) Written.encodeTable) :=
  Reads.counted fun n => Reads.of_yields_iff fun c as rest => readsAll pool n c as rest

end Attribute

end RemoteDebug.ClassFile
