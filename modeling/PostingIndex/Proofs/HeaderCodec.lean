import Mathlib.Algebra.GroupWithZero.Nat
import PostingIndex.File.Header

/-!
# Reading back what was written: numbers and headers

## Contents

Little-endian numbers of any width, where they can be read and what was read, words of 32
and 64 bits, the length of a header, and the header that is read from the bytes of a header.
-/

namespace PostingIndex

namespace LittleEndian

theorem read?_bytes (width value : Nat) (rest : List UInt8) :
    read? width (bytes width value ++ rest) = some (value % 256 ^ width, rest) := by
  induction width generalizing value with
  | zero =>
      simp [read?, bytes, Nat.mod_one]
  | succ width ih =>
      have hpow : 256 ^ (width + 1) = 256 * 256 ^ width := by
        rw [Nat.pow_succ, Nat.mul_comm]
      have hbyte : (UInt8.ofNat value).toNat = value % 256 := UInt8.toNat_ofNat'
      simp only [bytes, List.cons_append, read?, ih]
      rw [hbyte, hpow, Nat.mod_mul]

theorem eq_bytes_of_read? {width value : Nat} {input rest : List UInt8}
    (h : read? width input = some (value, rest)) :
    value < 256 ^ width ∧ input = bytes width value ++ rest := by
  induction width generalizing value input rest with
  | zero =>
      simp only [read?, Option.some.injEq, Prod.mk.injEq] at h
      simp [bytes, ← h.left, h.right]
  | succ width ih =>
      cases input with
      | nil =>
          simp [read?] at h
      | cons byte tail =>
          simp only [read?] at h
          split at h
          · simp at h
          · rename_i low after hread
            simp only [Option.some.injEq, Prod.mk.injEq] at h
            have htail := ih hread
            have hbyte : byte.toNat < 256 := byte.toNat_lt
            constructor
            · rw [← h.left, Nat.pow_succ]
              omega
            · have hdiv : value / 256 = low := by omega
              have hlow : UInt8.ofNat value = byte := by
                apply UInt8.toNat.inj
                rw [UInt8.toNat_ofNat']
                omega
              rw [bytes, hdiv, hlow, List.cons_append, ← h.right, ← htail.right]

theorem read?_bytes_of_lt {width value : Nat} (h : value < 256 ^ width)
    (rest : List UInt8) : read? width (bytes width value ++ rest) = some (value, rest) := by
  rw [read?_bytes, Nat.mod_eq_of_lt h]

theorem read?_append {width value : Nat} {input rest : List UInt8}
    (h : read? width input = some (value, rest)) (more : List UInt8) :
    read? width (input ++ more) = some (value, rest ++ more) := by
  rcases eq_bytes_of_read? h with ⟨hlt, rfl⟩
  rw [List.append_assoc, read?_bytes_of_lt hlt]

theorem exists_read? {width : Nat} {input : List UInt8} (h : width ≤ input.length) :
    ∃ value, read? width input = some (value, input.drop width) := by
  induction width generalizing input with
  | zero =>
      exact ⟨0, rfl⟩
  | succ width ih =>
      cases input with
      | nil =>
          cases h
      | cons byte rest =>
          rcases ih (Nat.le_of_succ_le_succ h) with ⟨value, hread⟩
          exact ⟨byte.toNat + 256 * value, by simp only [read?, hread, List.drop_succ_cons]⟩

@[simp]
theorem read?_word32 (word : UInt32) (rest : List UInt8) :
    read? 4 (bytes 4 word.toNat ++ rest) = some (word.toNat, rest) :=
  read?_bytes_of_lt word.toNat_lt rest

@[simp]
theorem read?_word64 (word : UInt64) (rest : List UInt8) :
    read? 8 (bytes 8 word.toNat ++ rest) = some (word.toNat, rest) :=
  read?_bytes_of_lt word.toNat_lt rest

end LittleEndian

namespace FileHeader

@[simp]
theorem length_encode (header : FileHeader) : header.encode.length = size := by
  simp [encode, size]

theorem readFields?_encode (header : FileHeader) : readFields? header.encode = some header := by
  have hlast : LittleEndian.read? 8 (LittleEndian.bytes 8 header.createdAt.toNat) =
      some (header.createdAt.toNat, []) := by
    rw [← List.append_nil (LittleEndian.bytes 8 header.createdAt.toNat)]
    exact LittleEndian.read?_word64 _ _
  simp [readFields?, encode, hlast]

theorem decode_encode {header : FileHeader} (hmagic : header.magic = magicNumber)
    (hversion : header.version = formatVersion) :
    decode header.encode = .ok header := by
  simp [decode, readFields?_encode, hmagic, hversion]

end FileHeader

end PostingIndex
