import RemoteDebug.Proofs.Attributes

/-!
# The grammar of class files

`ClassFile.parse` accepts the class files that can be described, and no other byte string
(`parse_eq_ok_iff`). What it returns is what the description says a debugger keeps of it.

Fields, interfaces and the attributes of the class leave nothing behind, and still have to be
well-formed. Only the end of a file is not known from what comes before it : where no byte is left
after the methods there are no attributes of the class, and otherwise their table has to be there.
-/

namespace RemoteDebug.ClassFile

open Parse
open Written (AllValid Member Body)

/-! ## Members -/

theorem reads_readField (pool : Pool) :
    Reads (readField pool) (.of (Member.Valid pool) (fun _ => ()) Member.encode) := by
  refine ((reads_skip 6).bind fun _ => (Attribute.reads_table pool).map fun _ => ()).of_iff
    fun _ bs => ?_
  constructor
  · rintro ⟨_, front, _, hfront, ⟨_, ⟨ds, hds, -, rfl⟩, -⟩, rfl⟩
    obtain ⟨flags, name, descriptor, rfl⟩ : ∃ flags name descriptor,
        front = Written.word flags ++ Written.word name ++ Written.word descriptor := by
      match front, hfront with
      | [a, b, c, d, e, f], _ =>
        obtain ⟨w₁, h₁⟩ := exists_u16 [a, b] rfl
        obtain ⟨w₂, h₂⟩ := exists_u16 [c, d] rfl
        obtain ⟨w₃, h₃⟩ := exists_u16 [e, f] rfl
        exact ⟨w₁, w₂, w₃, by simp [Written.word, h₁, h₂, h₃]⟩
    exact ⟨⟨flags, name, descriptor, ds⟩, hds, rfl, rfl⟩
  · rintro ⟨m, hm, -, rfl⟩
    refine ⟨(), _, _, ?_, ⟨_, ⟨m.attributes, hm, rfl, rfl⟩, rfl⟩, rfl⟩
    simp [Written.word]

/-- The first code among the kept attributes is the first code among the written ones. -/
theorem findSome_meaning {f : Attribute → Option Code} (hcode : ∀ code, f (.code code) = some code)
    (hlines : ∀ rows, f (.lineNumbers rows) = none) (ds : List Written.Attribute) :
    (ds.filterMap Written.Attribute.meaning).findSome? f =
      ds.findSome? Written.Attribute.code? := by
  induction ds with
  | nil => rfl
  | cons d ds ih =>
    cases d with
    | code =>
      simp only [List.filterMap_cons, Written.Attribute.meaning, List.findSome?_cons, hcode,
        Written.Attribute.code?]
    | lines =>
      simp only [List.filterMap_cons, Written.Attribute.meaning, List.findSome?_cons, hlines, ih,
        Written.Attribute.code?]
    | other => exact ih

theorem reads_method (pool : Pool) : Reads (Method.read pool) (.of
    (fun m : Member => m.Named pool ∧ m.Valid pool) (Member.method pool) Member.encode) := by
  unfold Method.read
  refine (reads_u16.bind fun flags => reads_u16.bind fun i => (reads_lift (pool.utf8 i)).bind
    fun name => reads_u16.bind fun j => (reads_lift (pool.utf8 j)).bind fun descriptor =>
      (Attribute.reads_table pool).map _).of_iff fun m bs => ?_
  constructor
  · rintro ⟨flags, _, _, rfl, ⟨i, _, _, rfl, ⟨name, _, _, ⟨hname, rfl⟩, ⟨j, _, _, rfl,
      ⟨descriptor, _, _, ⟨hdescriptor, rfl⟩, ⟨_, ⟨ds, hds, rfl, rfl⟩, rfl⟩, rfl⟩, rfl⟩, rfl⟩, rfl⟩,
      rfl⟩
    rw [Pool.utf8_eq_ok_iff] at hname hdescriptor
    refine ⟨⟨flags, i, j, ds⟩, ⟨⟨by simp [hname], by simp [hdescriptor]⟩, hds⟩, ?_, ?_⟩
    · rw [findSome_meaning (fun _ => rfl) fun _ => rfl]
      simp [Member.method, hname, hdescriptor]
    · simp [Member.encode, Written.word]
  · rintro ⟨m, ⟨⟨hi, hj⟩, hm⟩, rfl, rfl⟩
    obtain ⟨name, hname⟩ := Option.isSome_iff_exists.mp hi
    obtain ⟨descriptor, hdescriptor⟩ := Option.isSome_iff_exists.mp hj
    refine ⟨m.flags, _, _, rfl, ⟨m.name, _, _, rfl, ⟨name, _, _,
      ⟨Pool.utf8_eq_ok_iff.mpr hname, rfl⟩, ⟨m.descriptor, _, _, rfl, ⟨descriptor, _, _,
        ⟨Pool.utf8_eq_ok_iff.mpr hdescriptor, rfl⟩, ⟨_, ⟨m.attributes, hm, rfl, rfl⟩, ?_⟩, rfl⟩,
          rfl⟩, rfl⟩, rfl⟩, ?_⟩
    · rw [findSome_meaning (fun _ => rfl) fun _ => rfl]
      simp [Member.method, hname, hdescriptor]
    · simp [Member.encode, Written.word]

theorem kept_iff (pool : Pool) (m : Member) :
    (!(m.method pool).isNative && !(m.method pool).isBridge) = decide m.Kept := by
  rw [Bool.eq_iff_iff, decide_eq_true_iff]
  simp [Method.isNative, Method.isBridge, Member.method, Member.Kept]

/-- The methods that are kept are the members that are to be kept. -/
theorem filter_methods (pool : Pool) (ms : List Member) :
    (ms.map (Member.method pool)).filter (fun m => !m.isNative && !m.isBridge) =
      (ms.filter Member.Kept).map (Member.method pool) := by
  rw [List.filter_map]
  congr 1
  refine List.filter_congr fun m _ => ?_
  exact kept_iff pool m

/-! ## Files -/

/-- The attributes of the class are there unless no byte is left. -/
theorem accepts_ending {α : Type} (pool : Pool) (a : α) :
    Accepts (do
      let _ ← if (← remaining) = 0 then pure [] else Attribute.table pool
      return a) fun b bs => b = a ∧ ∃ ending,
        (∀ attributes trailing, ending = some (attributes, trailing) →
          attributes.length < UInt16.size ∧ AllValid pool attributes) ∧
        bs = Written.encodeEnding ending := by
  intro c b
  change (∃ rest, Yields (do
    let _ ← if c.remaining = 0 then pure [] else Attribute.table pool
    return a) c b rest) ↔ _
  split
  · next hc =>
    have hc : c.rest = [] := List.eq_nil_of_length_eq_zero hc
    constructor
    · rintro ⟨rest, c', h, -⟩
      cases h
      exact ⟨rfl, none, nofun, hc⟩
    · rintro ⟨rfl, -⟩
      exact ⟨c.rest, c, rfl, rfl⟩
  · next hc =>
    constructor
    · rintro ⟨rest, h⟩
      obtain ⟨bs, ⟨_, ⟨ds, hds, -, rfl⟩, rfl⟩, hrest⟩ :=
        (((Attribute.reads_table pool).map fun _ => a) c b rest).mp h
      refine ⟨rfl, some (ds, rest), ?_, hrest⟩
      rintro _ _ ⟨⟩
      exact hds
    · rintro ⟨rfl, ending, hvalid, hbs⟩
      cases ending with
      | none =>
        rw [Cursor.remaining, hbs] at hc
        exact absurd rfl hc
      | some e =>
        exact ⟨e.2, (((Attribute.reads_table pool).map fun _ => b) c b e.2).mpr
          ⟨_, ⟨_, ⟨e.1, hvalid e.1 e.2 rfl, rfl, rfl⟩, rfl⟩, hbs⟩⟩

theorem toBig_mark : Bytes.toBig 4 mark.toNat = [0xCA, 0xFE, 0xBA, 0xBE] := by
  decide

theorem reads_interfaces (n : Nat) : Reads (skip (n * 2)) (.of
    (fun ws : List UInt16 => ws.length = n) (fun _ => ()) (List.flatMap Written.word)) :=
  reads_skip_mul (fun _ => Bytes.length_toBig 2 _) exists_u16 n

theorem accepts_body {α : Type} (pool : Pool) (f : UInt16 → List Method → α) :
    Accepts (do
      let count ← u16
      skip (count.toNat * 2)
      let _ ← times (readField pool) (← u16).toNat
      let methods ← times (Method.read pool) (← u16).toNat
      let _ ← if (← remaining) = 0 then pure [] else Attribute.table pool
      return f count methods) (.of (Body.Valid pool)
        (fun d => f (UInt16.ofNat d.interfaces.length) (d.methods.map (Member.method pool)))
        Body.encode) := by
  refine (reads_u16.bind_accepts fun count => (reads_interfaces count.toNat).bind_accepts fun _ =>
    Reads.counted_accepts (reads_readField pool).times fun _ =>
    Reads.counted_accepts (reads_method pool).times fun methods =>
      accepts_ending pool (f count methods)).of_iff fun a bs => ?_
  constructor
  · rintro ⟨count, _, _, rfl, ⟨_, _, _, ⟨interfaces, hcount, -, rfl⟩, ⟨fields, _, hfields,
      ⟨methods, _, hmethods, ⟨rfl, ending, hending, rfl⟩, rfl⟩, rfl⟩, rfl⟩, rfl⟩
    have hlt : interfaces.length < UInt16.size := by rw [hcount]; exact count.toNat_lt
    refine ⟨⟨interfaces, fields, methods, ending⟩, ⟨hlt, hfields, hmethods, hending⟩, ?_, ?_⟩
    · simp [hcount]
    · simp [Body.encode, hcount]
  · rintro ⟨d, hd, rfl, rfl⟩
    have hcount : (UInt16.ofNat d.interfaces.length).toNat = d.interfaces.length :=
      UInt16.toNat_ofNat_of_lt hd.interfaces
    refine ⟨UInt16.ofNat d.interfaces.length, _, _, rfl, ⟨(), _, _,
      ⟨d.interfaces, hcount.symm, rfl, rfl⟩, ⟨d.fields, _, hd.fields,
        ⟨d.methods, _, hd.methods, ⟨rfl, d.ending, hd.ending, rfl⟩, rfl⟩, rfl⟩, rfl⟩, ?_⟩
    simp [Body.encode, hcount]

theorem accepts_read : Accepts read (.of Written.File.Valid Written.File.model
    Written.File.encode) := by
  unfold read
  refine (reads_u32.bind_accepts (M := fun magic file bs => magic = mark ∧
    Form.of Written.File.Valid Written.File.model Written.File.content file bs)
      fun magic => ?_).of_iff fun file bs => ?_
  · split
    · next h =>
      refine (accepts_throw _).of_iff fun file bs => ⟨nofun, ?_⟩
      rintro ⟨rfl, -⟩
      exact h rfl
    · next h =>
      rw [Decidable.of_not_not h]
      refine (reads_u16.bind_accepts fun minorVersion => reads_u16.bind_accepts fun majorVersion =>
        Pool.reads_parse.bind_accepts fun pool => reads_u16.bind_accepts fun flags =>
        reads_u16.bind_accepts fun thisClass => reads_u16.bind_accepts fun superClass =>
          accepts_body pool _).of_iff fun file bs => ?_
      constructor
      · rintro ⟨minorVersion, _, _, rfl, ⟨majorVersion, _, _, rfl, ⟨_, _, _,
          ⟨⟨poolCount, constants⟩, ⟨hslots, hfits, hlinked⟩, rfl, rfl⟩, ⟨flags, _, _, rfl,
          ⟨thisClass, _, _, rfl, ⟨superClass, _, _, rfl, ⟨body, hbody, rfl, rfl⟩,
          rfl⟩, rfl⟩, rfl⟩, rfl⟩, rfl⟩, rfl⟩
        refine ⟨rfl, ⟨body, minorVersion, majorVersion, poolCount, constants, flags, thisClass,
          superClass⟩, ⟨hslots, hfits, hlinked, hbody⟩, ?_, ?_⟩
        · simp [Written.File.model, Written.File.pool, filter_methods]
        · simp [Written.File.content, Written.word]
      · rintro ⟨-, d, hd, rfl, rfl⟩
        refine ⟨d.minorVersion, _, _, rfl, ⟨d.majorVersion, _, _, rfl, ⟨d.pool, _, _,
          ⟨⟨d.poolCount, d.constants⟩, ⟨hd.slots, hd.fits, hd.linked⟩, rfl, rfl⟩,
          ⟨d.flags, _, _, rfl, ⟨d.thisClass, _, _, rfl, ⟨d.superClass, _, _, rfl,
          ⟨d.toBody, hd.body, ?_, rfl⟩, rfl⟩, rfl⟩, rfl⟩, rfl⟩, rfl⟩, ?_⟩
        · simp [Written.File.model, filter_methods]
        · simp [Written.File.content, Written.word]
  · constructor
    · rintro ⟨_, _, _, rfl, ⟨rfl, d, hd, rfl, rfl⟩, rfl⟩
      exact ⟨d, hd, rfl, by rw [toBig_mark]; rfl⟩
    · rintro ⟨d, hd, rfl, rfl⟩
      exact ⟨mark, _, _, rfl, ⟨rfl, d, hd, rfl, rfl⟩, by rw [toBig_mark]; rfl⟩

/-- A byte string is accepted exactly when it is a class file that can be described, and the result
is what is kept of the class file that the description describes. -/
theorem parse_eq_ok_iff (bs : Bytes) (file : ClassFile) :
    ClassFile.parse bs = .ok file ↔
      ∃ d : Written.File, d.Valid ∧ d.encode = bs ∧ d.model = file := by
  have hparse : ClassFile.parse bs = .ok file ↔
      ∃ rest, Yields read (Cursor.start bs) file rest := by
    unfold ClassFile.parse StateT.run'
    cases h : read (Cursor.start bs) with
    | error e =>
      refine ⟨nofun, ?_⟩
      rintro ⟨rest, c', h', -⟩
      rw [h] at h'
      cases h'
    | ok r =>
      constructor
      · intro h'
        cases h'
        exact ⟨r.2.rest, r.2, h, rfl⟩
      · rintro ⟨rest, c', h', -⟩
        rw [h] at h'
        cases h'
        rfl
  rw [hparse, accepts_read]
  constructor
  · rintro ⟨d, hd, rfl, hbs⟩
    exact ⟨d, hd, hbs.symm, rfl⟩
  · rintro ⟨d, hd, rfl, rfl⟩
    exact ⟨d, hd, rfl, rfl⟩

end RemoteDebug.ClassFile
