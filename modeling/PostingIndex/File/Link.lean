import PostingIndex.Posting

/-!
# Links in files

## Contents

The 32-bit word that stands for an optional block number in a file.
-/

namespace PostingIndex

namespace Link

def noBlock : UInt32 :=
  0xFFFFFFFF

def word (link : Option BlockId) : UInt32 :=
  link.getD noBlock

def ofWord (word : UInt32) : Option BlockId :=
  if word = noBlock then none else some word

@[simp]
theorem word_ofWord (w : UInt32) : word (ofWord w) = w := by
  by_cases h : w = noBlock
  · simp [ofWord, h, word]
  · simp [ofWord, h, word]

theorem ofWord_ne_noBlock (w : UInt32) : ofWord w ≠ some noBlock := by
  unfold ofWord
  by_cases h : w = noBlock
  · simp [h]
  · simp [h]

theorem ofWord_word {link : Option BlockId} (h : link ≠ some noBlock) :
    ofWord (word link) = link := by
  cases link with
  | none =>
      simp [ofWord, word]
  | some id =>
      have hid : id ≠ noBlock := fun heq => h (congrArg some heq)
      simp [ofWord, word, hid]

theorem le_noBlock (w : UInt32) : w ≤ noBlock := by
  rw [UInt32.le_iff_toNat_le]
  exact Nat.le_of_lt_succ w.toNat_lt

theorem lt_noBlock_iff {w : UInt32} : w < noBlock ↔ w ≠ noBlock := by
  constructor
  · intro h
    exact UInt32.ne_of_lt h
  · intro h
    exact UInt32.lt_of_le_of_ne (le_noBlock w) h

end Link

end PostingIndex
