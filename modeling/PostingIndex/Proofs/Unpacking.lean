import PostingIndex.Bytes.Lz4
import PostingIndex.Proofs.HeaderCodec

/-!
# Packed sections

A section that unpacks announces the size of its contents in 32 bits, and every
sequence of its block is paid for by the bytes that it produces.  So neither the
contents nor the section itself can be long.

## Contents

The bytes that lengths and copies take and produce, the bounds on a section and
its contents, and the contents that are unpacked from what compression produces.
-/

namespace PostingIndex

namespace Lz4

theorem length_le_of_continueLength {length total : Nat} {input rest : List UInt8}
    (h : continueLength length input = some (total, rest)) :
    input.length + length ≤ rest.length + total + 1 := by
  induction input generalizing length with
  | nil =>
      simp [continueLength] at h
  | cons byte input ih =>
      rw [continueLength] at h
      by_cases hmore : byte = 255
      · rw [if_pos hmore] at h
        have hrest := ih h
        rw [List.length_cons]
        omega
      · rw [if_neg hmore] at h
        simp only [Option.some.injEq, Prod.mk.injEq] at h
        rw [List.length_cons, ← h.right, ← h.left]
        omega

theorem length_le_of_readLength {half total : Nat} {input rest : List UInt8}
    (h : readLength half input = some (total, rest)) :
    input.length ≤ rest.length + total + 1 := by
  unfold readLength at h
  by_cases hhalf : half < 15
  · rw [if_pos hhalf] at h
    simp only [Option.some.injEq, Prod.mk.injEq] at h
    rw [← h.right]
    omega
  · rw [if_neg hhalf] at h
    have hlength := length_le_of_continueLength h
    omega

theorem size_copyBack (offset count : Nat) (output : Array UInt8) :
    (copyBack offset count output).size = output.size + count := by
  induction count generalizing output with
  | zero =>
      rfl
  | succ count ih =>
      rw [copyBack, ih, Array.size_push]
      omega

theorem bounds_of_decodeSequences {limit fuel : Nat} {output result : Array UInt8}
    {input : List UInt8} (h : decodeSequences limit fuel output input = some result) :
    result.size ≤ limit ∧ input.length + 2 * output.size ≤ 2 * result.size + 2 := by
  induction fuel generalizing output input with
  | zero =>
      simp [decodeSequences] at h
  | succ fuel ih =>
      cases input with
      | nil =>
          simp [decodeSequences] at h
      | cons token input =>
          rw [decodeSequences] at h
          simp only [Option.bind_eq_bind, Option.bind_eq_some_iff, Prod.exists] at h
          rcases h with ⟨literals, afterStart, hstart, h⟩
          have hstartLength := length_le_of_readLength hstart
          by_cases hstop : afterStart.length < literals ∨
              limit < (output ++ afterStart.take literals).size
          · simp [hstop] at h
          · rw [if_neg hstop] at h
            rcases not_or.mp hstop with ⟨hliterals, hlimit⟩
            have hsize : (output ++ afterStart.take literals).size =
                output.size + literals := by
              rw [← Array.length_toList, Array.toList_appendList, List.length_append,
                List.length_take, Array.length_toList]
              omega
            cases hrest : afterStart.drop literals with
            | nil =>
                have hall : afterStart.length ≤ literals := List.drop_eq_nil_iff.mp hrest
                simp only [hrest, Option.some.injEq] at h
                rw [← h, List.length_cons]
                omega
            | cons byte others =>
                have hafter : (byte :: others).length = afterStart.length - literals := by
                  rw [← hrest, List.length_drop]
                simp only [hrest, Option.bind_eq_some_iff, Prod.exists] at h
                rcases h with ⟨offset, afterOffset, hoffset, extra, afterExtra, hextra, h⟩
                have hoffsetLength := (LittleEndian.eq_bytes_of_read? hoffset).right
                have hextraLength := length_le_of_readLength hextra
                by_cases hbad : offset = 0 ∨
                    (output ++ afterStart.take literals).size < offset ∨
                      limit < (output ++ afterStart.take literals).size + (extra + 4)
                · simp [hbad] at h
                · rw [if_neg hbad] at h
                  have hbounds := ih h
                  have hcopied := size_copyBack offset (extra + 4)
                    (output ++ afterStart.take literals)
                  have hoffsetBytes := congrArg List.length hoffsetLength
                  rw [List.length_append, LittleEndian.length_bytes] at hoffsetBytes
                  refine ⟨hbounds.left, ?_⟩
                  rw [List.length_cons]
                  omega

theorem bounds_of_decompress? {data contents : List UInt8}
    (h : decompress? data = some contents) :
    contents.length < 2 ^ 32 ∧ data.length < 2 ^ 33 + 6 := by
  simp only [decompress?, Option.bind_eq_bind, Option.bind_eq_some_iff, Prod.exists,
    Option.pure_def, Option.some.injEq] at h
  rcases h with ⟨size, block, hsize, output, houtput, heq⟩
  rcases LittleEndian.eq_bytes_of_read? hsize with ⟨hsmall, hdata⟩
  have hbounds := bounds_of_decodeSequences houtput
  rw [← heq, Array.length_toList, hdata, List.length_append, LittleEndian.length_bytes]
  omega

/-!
## Unpacking what was compressed
-/

theorem continueLength_replicate (length count : Nat) {last : UInt8} (hlast : last ≠ 255)
    (rest : List UInt8) :
    continueLength length (List.replicate count 255 ++ last :: rest) =
      some (length + count * 255 + last.toNat, rest) := by
  induction count generalizing length with
  | zero =>
      simp [continueLength, hlast]
  | succ count ih =>
      rw [List.replicate_succ, List.cons_append, continueLength, if_pos rfl, ih,
        Nat.succ_mul, Nat.add_assoc length 255, Nat.add_comm 255]

theorem readLength_literalStart (length : Nat) (rest : List UInt8) :
    ∃ token more, literalStart length = token :: more ∧
      readLength (token.toNat / 16) (more ++ rest) = some (length, rest) := by
  unfold literalStart
  by_cases hshort : length < 15
  · rw [if_pos hshort]
    refine ⟨_, [], rfl, ?_⟩
    have htoken : (UInt8.ofNat (length * 16)).toNat / 16 = length := by
      rw [UInt8.toNat_ofNat']
      omega
    rw [htoken, readLength, if_pos hshort, List.nil_append]
  · rw [if_neg hshort]
    refine ⟨_, _, rfl, ?_⟩
    have hnat : (UInt8.ofNat ((length - 15) % 255)).toNat = (length - 15) % 255 := by
      rw [UInt8.toNat_ofNat']
      omega
    have hlast : UInt8.ofNat ((length - 15) % 255) ≠ 255 := by
      intro heq
      rw [heq, show (255 : UInt8).toNat = 255 from rfl] at hnat
      omega
    show continueLength 15 _ = _
    rw [List.append_assoc, List.singleton_append, continueLength_replicate _ _ hlast, hnat]
    have hlength : 15 + (length - 15) / 255 * 255 + (length - 15) % 255 = length := by
      omega
    rw [hlength]

theorem decompress?_compress {data : List UInt8} (h : data.length < 2 ^ 32) :
    decompress? (compress data) = some data := by
  rcases readLength_literalStart data.length data with ⟨token, more, hstart, hread⟩
  have hsize : LittleEndian.read? 4
      (LittleEndian.bytes 4 data.length ++ token :: (more ++ data)) =
        some (data.length, token :: (more ++ data)) :=
    LittleEndian.read?_bytes_of_lt h _
  simp [decompress?, compress, hstart, hsize, decodeSequences, hread]

end Lz4

end PostingIndex
