/-!
# Little-endian numbers

Numbers of a fixed width are stored with their least significant byte first.

## Contents

Writing and reading numbers of any width.  Reading gives back the rest of the
bytes.
-/

namespace PostingIndex

namespace LittleEndian

def bytes : Nat -> Nat -> List UInt8
  | 0, _ => []
  | width + 1, value => UInt8.ofNat value :: bytes width (value / 256)

def read? : Nat -> List UInt8 -> Option (Nat × List UInt8)
  | 0, rest => some (0, rest)
  | _ + 1, [] => none
  | width + 1, byte :: rest =>
      match read? width rest with
      | none => none
      | some (value, rest) => some (byte.toNat + 256 * value, rest)

@[simp]
theorem length_bytes (width value : Nat) : (bytes width value).length = width := by
  induction width generalizing value with
  | zero =>
      rfl
  | succ width ih =>
      simp [bytes, ih]

end LittleEndian

end PostingIndex
