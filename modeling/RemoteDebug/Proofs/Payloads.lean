import Mathlib.Algebra.Group.Nat.Hom
import RemoteDebug.Location
import RemoteDebug.Proofs.Texts
import RemoteDebug.Wire.Frame

/-!
# Frames and their payloads

A device that ends every text with a zero byte and a device that ends none are read by the same
`Frame.decode`. Before the method name and before the descriptor it passes over one zero byte, if
there is one. `Frame.decode_eq_ok_iff` lists the payloads that it reads as a given frame : fillers
and trailing bytes are free, and a gap before a text may be left out only if the text does not
itself begin with a zero byte (`Frame.Gap`). The first byte of a text is the low byte of its length.

So `Frame.decode` undoes `Frame.encode` with terminators wherever the lengths of the texts can be
written (`Frame.decode_encode_terminated`). Without terminators it does so if, moreover, neither the
method name nor the descriptor has a multiple of 256 bytes (`Frame.decode_encode_iff`). A descriptor
of 256 bytes is read as another one (`Frame.wide_misread`).

A request that names a location writes its texts with terminators, and their checksums where
`Frame.decode` expects fillers (`Location.word_append_payload`). It can be read back exactly if the
lengths of the texts can be written (`Location.payload_read_back`).
-/

namespace RemoteDebug

namespace Bytes

variable {w : Nat} {bs : Bytes}

theorem littleEndian_lt (hbs : bs.length = w) : littleEndian bs < span w := by
  induction w generalizing bs with
  | zero =>
    rw [List.eq_nil_of_length_eq_zero hbs]
    decide
  | succ w ih =>
    obtain ⟨b, bs, rfl⟩ := List.exists_cons_of_length_eq_add_one hbs
    have hlt := ih (by simpa using hbs)
    have hb := b.toNat_lt
    rw [littleEndian, span]
    omega

theorem toLittle_littleEndian (hbs : bs.length = w) : toLittle w (littleEndian bs) = bs := by
  induction w generalizing bs with
  | zero => exact (List.eq_nil_of_length_eq_zero hbs).symm
  | succ w ih =>
    obtain ⟨b, bs, rfl⟩ := List.exists_cons_of_length_eq_add_one hbs
    have hb := b.toNat_lt
    have hdiv : (b.toNat + 256 * littleEndian bs) / 256 = littleEndian bs := by omega
    have hmod : UInt8.ofNat (b.toNat + 256 * littleEndian bs) = b := by
      rw [← UInt8.toNat_inj, UInt8.toNat_ofNat']
      omega
    rw [littleEndian, toLittle, hdiv, hmod, ih (by simpa using hbs)]

end Bytes

namespace Wire

namespace Read

/-! ## What a reader takes -/

variable {α β : Type} {p : Read α} {k : α → Read β} {bs rest : Bytes}

/-- The reader succeeds on `bs` with `a` and leaves `rest`. -/
def Gives (p : Read α) (bs : Bytes) (a : α) (rest : Bytes) : Prop := p.run bs = (.ok a, rest)

theorem gives_pure {a b : α} : Gives (pure a : Read α) bs b rest ↔ b = a ∧ rest = bs := by
  constructor
  · intro h
    cases h
    exact ⟨rfl, rfl⟩
  · rintro ⟨rfl, rfl⟩
    rfl

theorem run_bind_apply : (p >>= k).run bs = match p.run bs with
    | (.ok a, mid) => (k a).run mid
    | (.error fault, mid) => (.error fault, mid) := by
  have hbind (m : StateM Bytes (Except Fault α))
      (f : Except Fault α → StateM Bytes (Except Fault β)) :
      (m >>= f) bs = f (m bs).1 (m bs).2 := rfl
  rw [ExceptT.run_bind, hbind]
  rcases p.run bs with ⟨fault | a, mid⟩
  · rfl
  · rfl

theorem gives_bind {b : β} :
    Gives (p >>= k) bs b rest ↔ ∃ a mid, Gives p bs a mid ∧ Gives (k a) mid b rest := by
  unfold Gives
  rw [run_bind_apply]
  rcases p.run bs with ⟨fault | a, mid⟩
  · exact ⟨nofun, nofun⟩
  · constructor
    · intro h
      exact ⟨a, mid, rfl, h⟩
    · rintro ⟨_, _, ⟨⟩, h⟩
      exact h

theorem gives_map {f : α → β} {b : β} :
    Gives (do return f (← p)) bs b rest ↔ ∃ a, Gives p bs a rest ∧ b = f a := by
  rw [gives_bind]
  constructor
  · rintro ⟨a, mid, h, hb⟩
    obtain ⟨rfl, rfl⟩ := gives_pure.mp hb
    exact ⟨a, h, rfl⟩
  · rintro ⟨a, h, rfl⟩
    exact ⟨a, rest, h, gives_pure.mpr ⟨rfl, rfl⟩⟩

theorem gives_word {w n : Nat} :
    Gives (word w) bs n rest ↔ n < Bytes.span w ∧ bs = Bytes.toLittle w n ++ rest := by
  have hrun : (word w).run bs = if bs.length < w then (.error (.shortWord w), bs)
      else (.ok (Bytes.littleEndian (bs.take w)), bs.drop w) := by
    change (if bs.length < w then _ else _ : Read Nat).run bs = _
    split
    · rfl
    · rfl
  unfold Gives
  rw [hrun]
  split
  · next hlt =>
    refine ⟨nofun, ?_⟩
    rintro ⟨-, rfl⟩
    rw [List.length_append, Bytes.length_toLittle] at hlt
    omega
  · next hge =>
    have htake : (bs.take w).length = w := List.length_take_of_le (by omega)
    constructor
    · intro h
      cases h
      refine ⟨Bytes.littleEndian_lt htake, ?_⟩
      rw [Bytes.toLittle_littleEndian htake, List.take_append_drop]
    · rintro ⟨hn, rfl⟩
      rw [List.take_left' (by simp), List.drop_left' (by simp), Bytes.littleEndian_toLittle,
        Nat.mod_eq_of_lt hn]

/-- A word that is read as a type of its own, with as many values as its bytes have. -/
theorem gives_word_as (w : Nat) {ofNat : Nat → α} {toNat : α → Nat} {a : α}
    (hlt : toNat a < Bytes.span w) (hof : ofNat (toNat a) = a)
    (hto : ∀ n < Bytes.span w, toNat (ofNat n) = n) :
    Gives (do return ofNat (← word w)) bs a rest ↔ bs = Bytes.toLittle w (toNat a) ++ rest := by
  simp only [gives_map, gives_word]
  constructor
  · rintro ⟨n, ⟨hn, rfl⟩, rfl⟩
    rw [hto n hn]
  · rintro rfl
    exact ⟨toNat a, ⟨hlt, rfl⟩, hof.symm⟩

theorem gives_u16 {a : UInt16} : Gives u16 bs a rest ↔ bs = Bytes.toLittle 2 a.toNat ++ rest :=
  gives_word_as 2 a.toNat_lt UInt16.ofNat_toNat fun _ => UInt16.toNat_ofNat_of_lt

theorem gives_u32 {a : UInt32} : Gives u32 bs a rest ↔ bs = Bytes.toLittle 4 a.toNat ++ rest :=
  gives_word_as 4 a.toNat_lt UInt32.ofNat_toNat fun _ => UInt32.toNat_ofNat_of_lt

theorem gives_terminator {u : Unit} : Gives terminator bs u rest ↔
    bs = 0 :: rest ∨ bs = rest ∧ bs.head? ≠ some 0 := by
  have hrun : terminator.run bs = (.ok (), if bs.head? = some 0 then bs.tail else bs) := by
    cases bs with
    | nil => rfl
    | cons b bs =>
      by_cases hb : b = 0
      · subst hb
        rfl
      · have hget : (get : Read Bytes).run (b :: bs) = (.ok (b :: bs), b :: bs) := rfl
        have hrest : terminator.run (b :: bs) = (.ok (), b :: bs) := by
          rw [terminator, run_bind_apply, hget]
          dsimp only
          split
          · next heq => cases heq; exact absurd rfl hb
          · rfl
        simp [hrest, hb]
  have hgives :
      Gives terminator bs u rest ↔ (if bs.head? = some 0 then bs.tail else bs) = rest := by
    unfold Gives
    rw [hrun, Prod.mk.injEq]
    exact and_iff_right rfl
  rw [hgives]
  cases bs with
  | nil => simp
  | cons b bs => by_cases hb : b = 0 <;> simp [hb]

/-- The end of `text`, once the length is read. -/
theorem gives_taken {n : Nat} {s : String} :
    Gives (do
      let bs ← get
      if bs.length < n then throw (.shortText n bs.length)
      else
        set (bs.drop n)
        match Utf8.decode (bs.take n) with
        | .ok s => return s
        | .error fault => throw (.notText fault)) bs s rest ↔
    (Utf8.encode s).length = n ∧ bs = Utf8.encode s ++ rest := by
  unfold Gives
  change (if bs.length < n then _ else _ : Read String).run bs = _ ↔ _
  split
  · next hlt =>
    refine ⟨nofun, ?_⟩
    rintro ⟨rfl, rfl⟩
    rw [List.length_append] at hlt
    omega
  · next hge =>
    change (match Utf8.decode (bs.take n) with
      | .ok s => pure s
      | .error fault => throw (.notText fault) : Read String).run (bs.drop n) = _ ↔ _
    cases hdecode : Utf8.decode (bs.take n) with
    | error fault =>
      refine ⟨nofun, ?_⟩
      rintro ⟨rfl, rfl⟩
      rw [List.take_left, Utf8.decode_eq_ok_iff.mpr rfl] at hdecode
      cases hdecode
    | ok t =>
      have ht := Utf8.decode_eq_ok_iff.mp hdecode
      constructor
      · intro h
        cases h
        refine ⟨by rw [← ht, List.length_take_of_le (by omega)], ?_⟩
        rw [← ht, List.take_append_drop]
      · rintro ⟨rfl, rfl⟩
        rw [List.take_left, Utf8.decode_eq_ok_iff.mpr rfl] at hdecode
        cases hdecode
        rw [List.drop_left]
        rfl

/-- A text is read from its bytes without a terminator, with any filler. -/
theorem gives_text {s : String} : Gives text bs s rest ↔
    s.utf8ByteSize < 2 ^ 16 ∧ ∃ filler, bs = Frame.text false filler s ++ rest := by
  constructor
  · intro h
    obtain ⟨length, _, h₁, h⟩ := gives_bind.mp h
    obtain ⟨filler, _, h₂, h⟩ := gives_bind.mp h
    obtain ⟨hlen, rfl⟩ := gives_taken.mp h
    have hlt : s.utf8ByteSize < 2 ^ 16 := by
      rw [← Utf8.length_encode, hlen]
      exact length.toNat_lt
    refine ⟨hlt, filler, ?_⟩
    simp [Frame.text, gives_u16.mp h₁, gives_u16.mp h₂, hlen]
  · rintro ⟨hlt, filler, rfl⟩
    have hlen : (UInt16.ofNat (Utf8.encode s).length).toNat = (Utf8.encode s).length :=
      UInt16.toNat_ofNat_of_lt (by rwa [Utf8.length_encode])
    refine gives_bind.mpr ⟨UInt16.ofNat (Utf8.encode s).length, _, gives_u16.mpr ?_,
      gives_bind.mpr ⟨filler, _, gives_u16.mpr rfl, gives_taken.mpr ⟨hlen.symm, rfl⟩⟩⟩
    simp [Frame.text, hlen]

end Read

namespace Frame

open Read

/-! ## The payloads of a frame -/

/-- What may stand before a text : a zero byte, or nothing, if the text does not begin with one. -/
def Gap (gap : Bytes) (s : String) : Prop := gap = [0] ∨ gap = [] ∧ ¬256 ∣ s.utf8ByteSize

/-- The lengths of the texts can be written. -/
structure Fits (f : Frame) : Prop where
  className : f.className.utf8ByteSize < 2 ^ 16
  methodName : f.methodName.utf8ByteSize < 2 ^ 16
  descriptor : f.descriptor.utf8ByteSize < 2 ^ 16

theorem head?_text {filler : UInt16} {s : String} {rest : Bytes} :
    (text false filler s ++ rest).head? = some 0 ↔ 256 ∣ s.utf8ByteSize := by
  have hhead : (text false filler s ++ rest).head? = some (UInt8.ofNat s.utf8ByteSize) := by
    rw [← Utf8.length_encode]
    rfl
  rw [hhead, Option.some.injEq, ← UInt8.toNat_inj, UInt8.toNat_ofNat', Nat.dvd_iff_mod_eq_zero]
  rfl

theorem gives_gap {bs rest : Bytes} {u : Unit} {filler : UInt16} {s : String} :
    Gives terminator bs u (text false filler s ++ rest) ↔
      ∃ gap, Gap gap s ∧ bs = gap ++ (text false filler s ++ rest) := by
  rw [gives_terminator]
  constructor
  · rintro (rfl | ⟨rfl, hhead⟩)
    · exact ⟨[0], .inl rfl, rfl⟩
    · exact ⟨[], .inr ⟨rfl, fun h => hhead (head?_text.mpr h)⟩, rfl⟩
  · rintro ⟨_, rfl | ⟨rfl, hs⟩, rfl⟩
    · exact .inl rfl
    · exact .inr ⟨rfl, fun h => hs (head?_text.mp h)⟩

/-- The payloads that are read as a given frame. -/
theorem decode_eq_ok_iff {payload : Bytes} {f : Frame} :
    decode payload = .ok f ↔ f.Fits ∧ ∃ f₁ f₂ f₃ gap₁ gap₂ rest,
      Gap gap₁ f.methodName ∧ Gap gap₂ f.descriptor ∧
      payload = Packet.word f.index ++ Packet.word f.pc ++ text false f₁ f.className ++ gap₁
        ++ text false f₂ f.methodName ++ gap₂ ++ text false f₃ f.descriptor ++ rest := by
  have hdecode : decode payload = .ok f ↔ ∃ rest, Gives read payload f rest := by
    unfold decode Gives
    rcases read.run payload with ⟨result, rest⟩
    constructor
    · rintro rfl
      exact ⟨rest, rfl⟩
    · rintro ⟨_, ⟨⟩⟩
      rfl
  rw [hdecode]
  constructor
  · rintro ⟨rest, h⟩
    obtain ⟨index, _, h₁, h⟩ := gives_bind.mp h
    obtain ⟨pc, _, h₂, h⟩ := gives_bind.mp h
    obtain ⟨className, _, h₃, h⟩ := gives_bind.mp h
    obtain ⟨_, _, h₄, h⟩ := gives_bind.mp h
    obtain ⟨methodName, _, h₅, h⟩ := gives_bind.mp h
    obtain ⟨_, _, h₆, h⟩ := gives_bind.mp h
    obtain ⟨descriptor, _, h₇, h⟩ := gives_bind.mp h
    obtain ⟨rfl, rfl⟩ := gives_pure.mp h
    -- From the end to the front : what a terminator may be depends on the text after it.
    obtain ⟨hd, f₃, rfl⟩ := gives_text.mp h₇
    obtain ⟨gap₂, hgap₂, rfl⟩ := gives_gap.mp h₆
    obtain ⟨hm, f₂, rfl⟩ := gives_text.mp h₅
    obtain ⟨gap₁, hgap₁, rfl⟩ := gives_gap.mp h₄
    obtain ⟨hc, f₁, rfl⟩ := gives_text.mp h₃
    refine ⟨⟨hc, hm, hd⟩, f₁, f₂, f₃, gap₁, gap₂, rest, hgap₁, hgap₂, ?_⟩
    simp [gives_u32.mp h₁, gives_u32.mp h₂, Packet.word]
  · rintro ⟨⟨hc, hm, hd⟩, f₁, f₂, f₃, gap₁, gap₂, rest, hgap₁, hgap₂, rfl⟩
    refine ⟨rest, ?_⟩
    refine gives_bind.mpr ⟨f.index, _, gives_u32.mpr ?_,
      gives_bind.mpr ⟨f.pc, _, gives_u32.mpr rfl,
      gives_bind.mpr ⟨f.className, _, gives_text.mpr ⟨hc, f₁, rfl⟩,
      gives_bind.mpr ⟨(), _, gives_gap.mpr ⟨gap₁, hgap₁, rfl⟩,
      gives_bind.mpr ⟨f.methodName, _, gives_text.mpr ⟨hm, f₂, rfl⟩,
      gives_bind.mpr ⟨(), _, gives_gap.mpr ⟨gap₂, hgap₂, rfl⟩,
      gives_bind.mpr ⟨f.descriptor, _, gives_text.mpr ⟨hd, f₃, rfl⟩,
      gives_pure.mpr ⟨rfl, rfl⟩⟩⟩⟩⟩⟩⟩⟩
    simp [Packet.word]

/-! ## With terminators and without -/

variable {f₁ f₂ f₃ : UInt16} {f : Frame}

theorem text_terminated (filler : UInt16) (s : String) :
    text true filler s = text false filler s ++ [0] := by
  simp [text]

theorem length_text (filler : UInt16) (s : String) :
    (text false filler s).length = 4 + s.utf8ByteSize := by
  simp [text, Utf8.length_encode]
  omega

theorem decode_encode_terminated : decode (encode true f₁ f₂ f₃ f) = .ok f ↔ f.Fits := by
  rw [decode_eq_ok_iff]
  refine ⟨fun h => h.1, fun h => ⟨h, f₁, f₂, f₃, [0], [0], [0], .inl rfl, .inl rfl, ?_⟩⟩
  simp [encode, text_terminated]

theorem decode_encode_unterminated : decode (encode false f₁ f₂ f₃ f) = .ok f ↔
    f.Fits ∧ ¬256 ∣ f.methodName.utf8ByteSize ∧ ¬256 ∣ f.descriptor.utf8ByteSize := by
  rw [decode_eq_ok_iff]
  constructor
  · rintro ⟨h, g₁, g₂, g₃, gap₁, gap₂, rest, hgap₁, hgap₂, heq⟩
    -- A gap that is not empty would make the payload too long.
    have hlen := congrArg List.length heq
    simp only [encode, List.length_append, length_text] at hlen
    refine ⟨h, ?_, ?_⟩
    · rcases hgap₁ with rfl | ⟨-, hm⟩
      · rw [List.length_singleton] at hlen
        omega
      · exact hm
    · rcases hgap₂ with rfl | ⟨-, hd⟩
      · rw [List.length_singleton] at hlen
        omega
      · exact hd
  · rintro ⟨h, hm, hd⟩
    exact ⟨h, f₁, f₂, f₃, [], [], [], .inr ⟨rfl, hm⟩, .inr ⟨rfl, hd⟩, by simp [encode]⟩

/-- Which frames are read back from their payloads, for either kind of device and any fillers :
with terminators those whose lengths can be written, and without terminators those of them where
256 divides neither the length of the method name nor that of the descriptor. -/
theorem decode_encode_iff (terminated : Bool) (f₁ f₂ f₃ : UInt16) (f : Frame) :
    decode (encode terminated f₁ f₂ f₃ f) = .ok f ↔ f.Fits ∧ (terminated = false →
      ¬256 ∣ f.methodName.utf8ByteSize ∧ ¬256 ∣ f.descriptor.utf8ByteSize) := by
  cases terminated with
  | false => simp [decode_encode_unterminated]
  | true => simp [decode_encode_terminated]

/-- A frame of a method with 253 arguments. Its descriptor takes 256 bytes. -/
def wide : Frame :=
  ⟨0, 7, "demo/Blink", "blink", String.ofList ('(' :: 'I' :: List.replicate 252 'I' ++ [')', 'V'])⟩

theorem encode_wide :
    Utf8.encode wide.descriptor = [0x28, 0x49] ++ (List.replicate 252 0x49 ++ [0x29, 0x56]) := by
  have hreplicate :
      (List.replicate 252 'I').flatMap String.utf8EncodeChar = List.replicate 252 0x49 := by
    rw [List.flatMap_replicate]
    exact List.flatten_replicate_singleton
  rw [Utf8.encode, wide, String.toList_ofList, List.flatMap_append, List.flatMap_cons,
    List.flatMap_cons, hreplicate]
  rfl

theorem wide_fits : wide.Fits := by
  refine ⟨by decide, by decide, ?_⟩
  rw [← Utf8.length_encode, encode_wide]
  simp [-List.reduceReplicate]

/-- From a device without terminators the descriptor is read as `I`. The low byte of its length,
256, is passed over as a terminator, so the length is read as 1. -/
theorem wide_misread :
    wide.Fits ∧ decode (encode false 0 0 0 wide) = .ok { wide with descriptor := "I" } := by
  refine ⟨wide_fits, decode_eq_ok_iff.mpr ⟨⟨by decide, by decide, by decide⟩, 0, 0, 0x2800,
    [], [0], List.replicate 252 0x49 ++ [0x29, 0x56], .inr ⟨rfl, by decide⟩, .inl rfl, ?_⟩⟩
  have hwritten : text false 0 wide.descriptor =
      [0, 1, 0, 0, 0x28, 0x49] ++ (List.replicate 252 0x49 ++ [0x29, 0x56]) := by
    simp [-List.reduceReplicate, text, encode_wide, Bytes.toLittle]
  have hread : [0] ++ text false 0x2800 "I" = [0, 1, 0, 0, 0x28, 0x49] := by
    decide
  rw [encode, hwritten, ← hread]
  simp [-List.reduceReplicate]

end Frame

end Wire

namespace Location

/-! ## Locations read back -/

open Wire

/-- The frame that stands at the location. -/
def frame (i : UInt32) (l : Location) : Frame :=
  ⟨i, l.pc, slashed l.className, l.methodName, l.descriptor⟩

/-- The lengths of the texts can be written. -/
structure Fits (l : Location) : Prop where
  className : l.className.utf8ByteSize < 2 ^ 16
  methodName : l.methodName.utf8ByteSize < 2 ^ 16
  descriptor : l.descriptor.utf8ByteSize < 2 ^ 16

theorem utf8ByteSize_slashed (s : String) : (slashed s).utf8ByteSize = s.utf8ByteSize := by
  have hchar : ∀ c : Char, (String.utf8EncodeChar (if c = '\\' then '/' else c)).length =
      (String.utf8EncodeChar c).length := by
    intro c
    split
    · next hc =>
      rw [hc]
      rfl
    · rfl
  rw [← Utf8.length_encode, ← Utf8.length_encode, Utf8.encode, Utf8.encode, slashed,
    String.toList_map, List.flatMap_map, List.length_flatMap, List.length_flatMap]
  simp only [hchar]

theorem fits_frame {i : UInt32} {l : Location} : (l.frame i).Fits ↔ l.Fits := by
  constructor
  · rintro ⟨hc, hm, hd⟩
    exact ⟨by rwa [← utf8ByteSize_slashed], hm, hd⟩
  · rintro ⟨hc, hm, hd⟩
    exact ⟨by rwa [frame, utf8ByteSize_slashed], hm, hd⟩

/-- The payload of a location, after an index, is that of the frame there, with checksums as
fillers. -/
theorem word_append_payload (i : UInt32) (l : Location) :
    Packet.word i ++ l.payload = Frame.encode true (Units.checksum (slashed l.className))
      (Units.checksum l.methodName) (Units.checksum l.descriptor) (l.frame i) := by
  rw [payload, ← List.append_assoc, ← List.append_assoc, ← List.append_assoc]
  rfl

theorem decode_payload (i : UInt32) (l : Location) :
    Frame.decode (Packet.word i ++ l.payload) = .ok (l.frame i) ↔ l.Fits := by
  rw [word_append_payload, Frame.decode_encode_terminated, fits_frame]

theorem frame_eq_of_payload_eq {l m : Location} (hl : l.Fits) (hm : m.Fits)
    (h : l.payload = m.payload) : l.frame 0 = m.frame 0 := by
  have hdecode := (decode_payload 0 l).mpr hl
  rw [h, (decode_payload 0 m).mpr hm] at hdecode
  exact (Except.ok.inj hdecode).symm

theorem littleEndian_take_text (s : String) :
    Bytes.littleEndian ((Packet.text s).take 2) = s.utf8ByteSize % 2 ^ 16 := by
  have htake : (Packet.text s).take 2 = Bytes.toLittle 2 s.utf8ByteSize := by
    rw [← Utf8.length_encode]
    rfl
  rw [htake, Bytes.littleEndian_toLittle]
  rfl

/-- A request that names a location is read back as the frame there, after an index, exactly if the
lengths of the texts can be written. Within this bound it determines the frame, and beyond it the
written length is never that of the text. -/
theorem payload_read_back (op : Opcode) :
    (∀ (i : UInt32) (l : Location),
      Frame.decode (Packet.word i ++ (l.packet op).payload) = .ok (l.frame i) ↔ l.Fits) ∧
    (∀ l m : Location, l.Fits → m.Fits →
      ((l.packet op).payload = (m.packet op).payload ↔ l.frame 0 = m.frame 0)) ∧
    ∀ s : String, Bytes.littleEndian ((Packet.text s).take 2) = s.utf8ByteSize ↔
      s.utf8ByteSize < 2 ^ 16 := by
  refine ⟨decode_payload, fun l m hl hm => ⟨frame_eq_of_payload_eq hl hm, ?_⟩, ?_⟩
  · intro h
    injection h with _ hpc hc hm hd
    rw [packet, packet, payload, payload, hpc, hc, hm, hd]
  · intro s
    rw [littleEndian_take_text]
    omega

theorem payload_read_back_backslash :
    let l : Location := ⟨"demo/Blink.java", 6, 4, "demo\\Blink", "main", "()V"⟩
    l.Fits ∧ Frame.decode (Packet.word 1 ++ (l.packet 2).payload) =
      .ok ⟨1, 4, "demo/Blink", "main", "()V"⟩ := by
  intro l
  have hfits : l.Fits := ⟨by decide, by decide, by decide⟩
  have hframe : l.frame 1 = ⟨1, 4, "demo/Blink", "main", "()V"⟩ := by
    decide +kernel
  exact ⟨hfits, hframe ▸ ((payload_read_back 2).1 1 l).mpr hfits⟩

end Location

end RemoteDebug
