import RemoteDebug.Text.Utf8

/-!
# Texts and their bytes

`Utf8.decode` takes the bytes of a text back to the text, and takes nothing else
(`Utf8.decode_eq_ok_iff`). So a text has one written form, and how long that form is does not
depend on the reader.

The characters that begin with a byte are those that `Spells` lists, by their numbers. `lead` goes
to a state from which exactly the remaining bytes of these characters lead back to the start
(`lead_led`), whatever the state has seen before (`charsFrom_within`). The bounds on the second byte
are where this could go wrong : they keep overlong forms and surrogates out, and keep no character
out.
-/

namespace RemoteDebug.Utf8

/-- The character with number `n` is written as `b` and the bytes of `tail`. -/
def Spells (n : Nat) (b : UInt8) : Bytes → Prop
  | [] => n < 0x80 ∧ b.toNat = n
  | [b₁] => (0x80 ≤ n ∧ n < 0x800) ∧ b.toNat = 0xC0 + n / 64 ∧ b₁.toNat = 0x80 + n % 64
  | [b₁, b₂] => (0x800 ≤ n ∧ n < 0xD800 ∨ 0xE000 ≤ n ∧ n < 0x10000) ∧
      b.toNat = 0xE0 + n / 4096 ∧ b₁.toNat = 0x80 + n / 64 % 64 ∧ b₂.toNat = 0x80 + n % 64
  | [b₁, b₂, b₃] => (0x10000 ≤ n ∧ n < 0x110000) ∧ b.toNat = 0xF0 + n / 262144 ∧
      b₁.toNat = 0x80 + n / 4096 % 64 ∧ b₂.toNat = 0x80 + n / 64 % 64 ∧ b₃.toNat = 0x80 + n % 64
  | _ => False

theorem spells_toNat_iff {c : Char} {b : UInt8} {tail : Bytes} :
    Spells c.toNat b tail ↔ String.utf8EncodeChar c = b :: tail := by
  have hc : c.toNat < 0xD800 ∨ 0xDFFF < c.toNat ∧ c.toNat < 0x110000 := c.valid
  simp only [String.utf8EncodeChar, show c.val.toNat = c.toNat from rfl]
  constructor
  · intro h
    match tail, h with
    | [], ⟨hrange, hb⟩ => rw [if_pos (by omega), ← hb, UInt8.ofNat_toNat]
    | [b₁], ⟨hrange, hb, hb₁⟩ =>
      rw [if_neg (by omega), if_pos (by omega)]
      simp only [List.cons.injEq, ← UInt8.toNat_inj, UInt8.toNat_ofNat', hb, hb₁, and_true]
      omega
    | [b₁, b₂], ⟨hrange, hb, hb₁, hb₂⟩ =>
      rw [if_neg (by omega), if_neg (by omega), if_pos (by omega)]
      simp only [List.cons.injEq, ← UInt8.toNat_inj, UInt8.toNat_ofNat', hb, hb₁, hb₂, and_true]
      omega
    | [b₁, b₂, b₃], ⟨hrange, hb, hb₁, hb₂, hb₃⟩ =>
      rw [if_neg (by omega), if_neg (by omega), if_neg (by omega)]
      simp only [List.cons.injEq, ← UInt8.toNat_inj, UInt8.toNat_ofNat', hb, hb₁, hb₂, hb₃,
        and_true]
      omega
  · repeat' split
    all_goals
      intro h
      cases h
      refine ⟨by omega, ?_⟩
      simp only [UInt8.toNat_ofNat']
      omega

/-- Bytes that complete a character of which `value` is known : `missing + 1` of them, the first
between `low` and `high`. The number of the character is `n`. -/
def Completes (n value : Nat) : (missing : Nat) → (low high : UInt8) → Bytes → Prop
  | 0, low, high, tail => ∃ b, tail = [b] ∧ (low ≤ b ∧ b ≤ high) ∧
      n = value * 64 + (b.toNat - 0x80)
  | missing + 1, low, high, tail => ∃ b rest, tail = b :: rest ∧ (low ≤ b ∧ b ≤ high) ∧
      Completes n (value * 64 + (b.toNat - 0x80)) missing 0x80 0xBF rest

section

variable {n value : Nat} {b low high : UInt8} {tail : Bytes}

theorem spells_one_iff (hb : b.toNat < 0x80) : Spells n b tail ↔ n = b.toNat ∧ tail = [] := by
  constructor
  · intro h
    match tail, h with
    | [], h => exact ⟨h.2.symm, rfl⟩
    | [_], h | [_, _], h | [_, _, _], h =>
      have := h.2.1
      omega
  · rintro ⟨rfl, rfl⟩
    exact ⟨hb, rfl⟩

theorem not_spells (hb : 0x80 ≤ b.toNat) (hb' : b.toNat < 0xC2 ∨ 0xF5 ≤ b.toNat) :
    ¬Spells n b tail := by
  intro h
  match tail, h with
  | [], h | [_], h | [_, _], h | [_, _, _], h =>
    have := h.1
    simp only [Spells] at h
    omega

theorem spells_two_iff (hb : b.toNat = 0xC0 + value) (hv : 2 ≤ value ∧ value < 32) :
    Spells n b tail ↔ Completes n value 0 0x80 0xBF tail := by
  simp only [Completes, UInt8.le_iff_toNat_le, UInt8.reduceToNat]
  constructor
  · intro h
    match tail, h with
    | [b₁], ⟨_, h⟩ => exact ⟨b₁, rfl, by omega, by omega⟩
    | [], h | [_, _], h | [_, _, _], h =>
      simp only [Spells] at h
      omega
  · rintro ⟨b₁, rfl, h, hn⟩
    exact ⟨by omega, by omega, by omega⟩

theorem spells_three_iff (hb : b.toNat = 0xE0 + value) (hv : value < 16)
    (hlow : value = 0 ∧ low.toNat = 0xA0 ∨ 0 < value ∧ low.toNat = 0x80)
    (hhigh : value = 0xD ∧ high.toNat = 0x9F ∨ value ≠ 0xD ∧ high.toNat = 0xBF) :
    Spells n b tail ↔ Completes n value 1 low high tail := by
  simp only [Completes, UInt8.le_iff_toNat_le, UInt8.reduceToNat]
  constructor
  · intro h
    match tail, h with
    | [b₁, b₂], ⟨_, h⟩ =>
      exact ⟨b₁, [b₂], rfl, by omega, b₂, rfl, by omega, by omega⟩
    | [], h | [_], h | [_, _, _], h =>
      simp only [Spells] at h
      omega
  · rintro ⟨b₁, _, rfl, h₁, b₂, rfl, h₂, hn⟩
    exact ⟨by omega, by omega, by omega, by omega⟩

theorem spells_four_iff (hb : b.toNat = 0xF0 + value) (hv : value < 5)
    (hlow : value = 0 ∧ low.toNat = 0x90 ∨ 0 < value ∧ low.toNat = 0x80)
    (hhigh : value = 4 ∧ high.toNat = 0x8F ∨ value < 4 ∧ high.toNat = 0xBF) :
    Spells n b tail ↔ Completes n value 2 low high tail := by
  simp only [Completes, UInt8.le_iff_toNat_le, UInt8.reduceToNat]
  constructor
  · intro h
    match tail, h with
    | [b₁, b₂, b₃], ⟨_, h⟩ =>
      exact ⟨b₁, [b₂, b₃], rfl, by omega, b₂, [b₃], rfl, by omega, b₃, rfl, by omega, by omega⟩
    | [], h | [_], h | [_, _], h =>
      simp only [Spells] at h
      omega
  · rintro ⟨b₁, _, rfl, h₁, b₂, _, rfl, h₂, b₃, rfl, h₃, hn⟩
    exact ⟨by omega, by omega, by omega, by omega, by omega⟩

end

/-- What `b` leads to is what the characters that begin with `b` are. -/
inductive Led (b : UInt8) : List Piece × State → Prop where
  | char (c : Char) (h : ∀ n tail, Spells n b tail ↔ n = c.toNat ∧ tail = []) :
    Led b ([.char c 1], .start)
  | bad (h : ∀ n tail, ¬Spells n b tail) : Led b ([.bad 1], .start)
  | within {value missing : Nat} {low high : UInt8}
      (h : ∀ n tail, Spells n b tail ↔ Completes n value missing low high tail) :
    Led b ([], .within 1 value missing low high)

theorem toNat_ofNat {n : Nat} (hn : n.isValidChar) : (Char.ofNat n).toNat = n := by
  rw [Char.ofNat, dif_pos hn]
  rfl

theorem lead_led (b : UInt8) : Led b (lead b) := by
  have hb := b.toNat_lt
  simp only [lead, UInt8.lt_iff_toNat_lt, ← UInt8.toNat_inj, UInt8.reduceToNat]
  by_cases h₁ : b.toNat < 0x80
  · rw [if_pos h₁]
    refine .char _ fun n tail => ?_
    rw [toNat_ofNat (Or.inl (by omega))]
    exact spells_one_iff h₁
  by_cases h₂ : b.toNat < 0xC2
  · rw [if_neg h₁, if_pos h₂]
    exact .bad fun n tail => not_spells (by omega) (by omega)
  by_cases h₃ : b.toNat < 0xE0
  · rw [if_neg h₁, if_neg h₂, if_pos h₃]
    exact .within fun n tail => spells_two_iff (by omega) (by omega)
  rw [if_neg h₁, if_neg h₂, if_neg h₃]
  by_cases h₄ : b.toNat = 0xE0
  · rw [if_pos h₄]
    exact .within fun n tail => spells_three_iff h₄ (by decide) (by decide) (by decide)
  by_cases h₅ : b.toNat = 0xED
  · rw [if_neg h₄, if_pos h₅]
    exact .within fun n tail => spells_three_iff h₅ (by decide) (by decide) (by decide)
  by_cases h₆ : b.toNat < 0xF0
  · rw [if_neg h₄, if_neg h₅, if_pos h₆]
    exact .within fun n tail => spells_three_iff (by omega) (by omega) (.inr ⟨by omega, rfl⟩)
      (.inr ⟨by omega, rfl⟩)
  rw [if_neg h₄, if_neg h₅, if_neg h₆]
  by_cases h₇ : b.toNat = 0xF0
  · rw [if_pos h₇]
    exact .within fun n tail => spells_four_iff h₇ (by decide) (by decide) (by decide)
  by_cases h₈ : b.toNat < 0xF4
  · rw [if_neg h₇, if_pos h₈]
    exact .within fun n tail => spells_four_iff (by omega) (by omega) (.inr ⟨by omega, rfl⟩)
      (.inr ⟨by omega, rfl⟩)
  rw [if_neg h₇, if_neg h₈]
  by_cases h₉ : b.toNat = 0xF4
  · rw [if_pos h₉]
    exact .within fun n tail => spells_four_iff h₉ (by decide) (by decide) (by decide)
  · rw [if_neg h₉]
    exact .bad fun n tail => not_spells (by omega) (by omega)

theorem Spells.isValidChar {n : Nat} {b : UInt8} {tail : Bytes} (h : Spells n b tail) :
    n.isValidChar := by
  unfold Nat.isValidChar
  match tail, h with
  | [], h | [_], h | [_, _], h | [_, _, _], h =>
    have := h.1
    omega

/-! ## From pieces to characters -/

theorem charsFrom_char {start size : Nat} {c : Char} {ps : List Piece} {cs : List Char} :
    charsFrom start (.char c size :: ps) = .ok cs ↔
      ∃ cs', cs = c :: cs' ∧ charsFrom (start + size) ps = .ok cs' := by
  rw [charsFrom]
  cases charsFrom (start + size) ps with
  | error fault => exact ⟨nofun, nofun⟩
  | ok cs' => simp [Functor.map, Except.map, eq_comm]

theorem charsFrom_within {seen value missing start : Nat} {low high : UInt8} {bs : Bytes}
    {cs : List Char} :
    charsFrom start (piecesFrom (.within seen value missing low high) bs) = .ok cs ↔
      ∃ n tail rest cs', Completes n value missing low high tail ∧ bs = tail ++ rest ∧
        cs = Char.ofNat n :: cs' ∧
        charsFrom (start + (seen + missing + 1)) (piecesFrom .start rest) = .ok cs' := by
  induction missing generalizing seen value low high bs with
  | zero =>
    cases bs with
    | nil =>
      refine ⟨nofun, ?_⟩
      rintro ⟨n, _, rest, cs', ⟨b, rfl, -⟩, hbs, -⟩
      cases hbs
    | cons b bs =>
      rw [piecesFrom, State.step]
      by_cases hb : low ≤ b ∧ b ≤ high
      · rw [if_pos hb]
        simp only [List.singleton_append, charsFrom_char]
        constructor
        · rintro ⟨cs', hcs, h⟩
          exact ⟨_, [b], bs, cs', ⟨b, rfl, hb, rfl⟩, rfl, hcs, h⟩
        · rintro ⟨n, _, rest, cs', ⟨b', rfl, -, hn⟩, hbs, hcs, h⟩
          obtain ⟨rfl, rfl⟩ := List.cons.inj hbs
          exact ⟨cs', hn ▸ hcs, h⟩
      · rw [if_neg hb]
        refine ⟨nofun, ?_⟩
        rintro ⟨n, _, rest, cs', ⟨b', rfl, hb', -⟩, hbs, -⟩
        cases hbs
        exact absurd hb' hb
  | succ missing ih =>
    cases bs with
    | nil =>
      refine ⟨nofun, ?_⟩
      rintro ⟨n, _, rest, cs', ⟨b, _, rfl, -⟩, hbs, -⟩
      cases hbs
    | cons b bs =>
      rw [piecesFrom, State.step]
      by_cases hb : low ≤ b ∧ b ≤ high
      · rw [if_pos hb]
        refine ih.trans ?_
        rw [show seen + 1 + missing + 1 = seen + (missing + 1) + 1 by omega]
        constructor
        · rintro ⟨n, tail, rest, cs', htail, rfl, hcs, h⟩
          exact ⟨n, b :: tail, rest, cs', ⟨b, tail, rfl, hb, htail⟩, rfl, hcs, h⟩
        · rintro ⟨n, _, rest, cs', ⟨b', tail, rfl, -, htail⟩, hbs, hcs, h⟩
          cases hbs
          exact ⟨n, tail, rest, cs', htail, rfl, hcs, h⟩
      · rw [if_neg hb]
        refine ⟨nofun, ?_⟩
        rintro ⟨n, _, rest, cs', ⟨b', _, rfl, hb', -⟩, hbs, -⟩
        cases hbs
        exact absurd hb' hb

theorem cons_eq_flatMap_iff {b : UInt8} {bs : Bytes} {cs : List Char} :
    b :: bs = cs.flatMap String.utf8EncodeChar ↔ ∃ c cs' tail, cs = c :: cs' ∧
      Spells c.toNat b tail ∧ bs = tail ++ cs'.flatMap String.utf8EncodeChar := by
  cases cs with
  | nil => exact ⟨nofun, nofun⟩
  | cons c cs =>
    obtain ⟨b', tail', hc⟩ := List.exists_cons_of_ne_nil (String.utf8EncodeChar_ne_nil (c := c))
    rw [List.flatMap_cons, hc, List.cons_append]
    constructor
    · intro h
      obtain ⟨rfl, rfl⟩ := List.cons.inj h
      exact ⟨c, cs, tail', rfl, spells_toNat_iff.mpr hc, rfl⟩
    · rintro ⟨_, _, tail, ⟨⟩, hspells, rfl⟩
      obtain ⟨rfl, rfl⟩ := List.cons.inj (hc.symm.trans (spells_toNat_iff.mp hspells))
      rfl

theorem charsFrom_piecesFrom {start : Nat} {bs : Bytes} {cs : List Char} :
    charsFrom start (piecesFrom .start bs) = .ok cs ↔
      bs = cs.flatMap String.utf8EncodeChar := by
  induction hn : bs.length using Nat.strongRecOn generalizing start bs cs with
  | ind n ih =>
    cases bs with
    | nil =>
      cases cs with
      | nil => exact ⟨fun _ => rfl, fun _ => rfl⟩
      | cons c cs => simp [piecesFrom, State.finish, charsFrom, String.utf8EncodeChar_ne_nil]
    | cons b bs =>
      have hlt : ∀ rest : Bytes, rest.length ≤ bs.length → rest.length < n := by
        intro rest hrest
        rw [← hn, List.length_cons]
        omega
      have hled := lead_led b
      rw [cons_eq_flatMap_iff, piecesFrom, State.step]
      revert hled
      generalize lead b = r
      intro hled
      cases hled with
      | char c h =>
        simp only [List.singleton_append, charsFrom_char, ih _ (hlt bs (Nat.le_refl _)) rfl, h]
        constructor
        · rintro ⟨cs', rfl, rfl⟩
          exact ⟨c, cs', [], rfl, ⟨rfl, rfl⟩, rfl⟩
        · rintro ⟨c', cs', _, rfl, ⟨hc, rfl⟩, rfl⟩
          exact ⟨cs', by rw [Char.toNat_inj.mp hc], rfl⟩
      | bad h =>
        refine ⟨nofun, ?_⟩
        rintro ⟨c, cs', tail, -, hspells, -⟩
        exact absurd hspells (h _ _)
      | within h =>
        refine charsFrom_within.trans ?_
        constructor
        · rintro ⟨m, tail, rest, cs', htail, rfl, rfl, hrest⟩
          have hspells := (h m tail).mpr htail
          rw [ih _ (hlt rest (by simp)) rfl] at hrest
          refine ⟨Char.ofNat m, cs', tail, rfl, ?_, by rw [hrest]⟩
          rwa [toNat_ofNat hspells.isValidChar]
        · rintro ⟨c, cs', tail, rfl, hspells, rfl⟩
          refine ⟨c.toNat, tail, _, cs', (h _ _).mp hspells, rfl, by rw [Char.ofNat_toNat], ?_⟩
          rw [ih _ (hlt _ (by simp)) rfl]

/-- A byte string is the text whose bytes it is, and no other string is a text. -/
theorem decode_eq_ok_iff {bs : Bytes} {s : String} : decode bs = .ok s ↔ bs = encode s := by
  have hdecode : decode bs = .ok s ↔ charsFrom 0 (pieces bs) = .ok s.toList := by
    unfold decode
    cases charsFrom 0 (pieces bs) with
    | error fault => exact ⟨nofun, nofun⟩
    | ok cs =>
      change Except.ok (String.ofList cs) = _ ↔ _
      rw [Except.ok.injEq, Except.ok.injEq]
      constructor
      · rintro rfl
        rw [String.toList_ofList]
      · rintro rfl
        rw [String.ofList_toList]
  rw [hdecode]
  exact charsFrom_piecesFrom

theorem length_encode (s : String) : (encode s).length = s.utf8ByteSize := by
  rw [← String.size_toByteArray, ← String.ofList_toList (s := s), String.toByteArray_ofList]
  simp [encode, List.utf8Encode]

end RemoteDebug.Utf8
