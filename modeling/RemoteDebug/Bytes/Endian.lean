/-!
# Byte strings and the numbers they spell

Class files write numbers most significant byte first (`bigEndian`), the device writes them
least significant byte first (`littleEndian`, `toLittle`). A number written in `w` bytes reads
back as its remainder modulo `span w` (`littleEndian_toLittle`).
-/

namespace RemoteDebug

/-- A string of bytes. -/
abbrev Bytes := List UInt8

namespace Bytes

/-- The number a byte string spells, most significant byte first. -/
def bigEndian (bs : Bytes) : Nat :=
  bs.foldl (fun n b => n * 256 + b.toNat) 0

/-- The number a byte string spells, least significant byte first. -/
def littleEndian : Bytes → Nat
  | [] => 0
  | b :: bs => b.toNat + 256 * littleEndian bs

/-- The low `w` bytes of `n`, least significant byte first. -/
def toLittle : (w : Nat) → Nat → Bytes
  | 0, _ => []
  | w + 1, n => UInt8.ofNat n :: toLittle w (n / 256)

/-- The number of values that `w` bytes have. -/
def span : (w : Nat) → Nat
  | 0 => 1
  | w + 1 => 256 * span w

@[simp] theorem length_toLittle (w n : Nat) : (toLittle w n).length = w := by
  induction w generalizing n with
  | zero => rfl
  | succ w ih => simp [toLittle, ih]

theorem littleEndian_toLittle (w n : Nat) : littleEndian (toLittle w n) = n % span w := by
  induction w generalizing n with
  | zero => simp [toLittle, littleEndian, span, Nat.mod_one]
  | succ w ih =>
    rw [toLittle, littleEndian, ih, span, Nat.mod_mul]
    simp

end Bytes

end RemoteDebug
