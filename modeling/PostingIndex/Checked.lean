import PostingIndex.Fault

/-!
# Checked arithmetic

Sums and differences of machine numbers are checked where they are formed.  One
that is out of range aborts.

## Contents

The next number, differences, and when they are formed.
-/

namespace PostingIndex

namespace Checked

def succ (number : UInt32) : Except IndexError UInt32 :=
  if number.toNat + 1 < UInt32.size then
    .ok (number + 1)
  else
    .error (.aborted .addOverflow)

def sub (left right : Nat) : Except IndexError Nat :=
  if right ≤ left then
    .ok (left - right)
  else
    .error (.aborted .subOverflow)

theorem succ_eq_ok {number next : UInt32} :
    succ number = .ok next ↔ next.toNat = number.toNat + 1 := by
  unfold succ
  have hsize : UInt32.size = 2 ^ 32 := rfl
  split
  · next hfits =>
      have hnext : (number + 1).toNat = number.toNat + 1 := by
        rw [UInt32.toNat_add, UInt32.toNat_one, Nat.mod_eq_of_lt (by omega)]
      rw [Except.ok.injEq, ← UInt32.toNat_inj, hnext, eq_comm]
  · next hfull =>
      have hlt := next.toNat_lt
      constructor
      · intro h
        cases h
      · intro h
        omega

theorem succ_eq_error {number : UInt32} {error : IndexError} :
    succ number = .error error ↔
      number.toNat + 1 = UInt32.size ∧ error = .aborted .addOverflow := by
  unfold succ
  have hlt := number.toNat_lt_size
  split
  · next hfits =>
      constructor
      · intro h
        cases h
      · intro h
        omega
  · next hfull =>
      rw [Except.error.injEq, eq_comm]
      constructor
      · intro h
        exact ⟨by omega, h⟩
      · intro h
        exact h.right

theorem sub_eq_ok {left right difference : Nat} :
    sub left right = .ok difference ↔ right ≤ left ∧ difference = left - right := by
  unfold sub
  split
  · next hle =>
      rw [Except.ok.injEq, eq_comm]
      exact ⟨fun h => ⟨hle, h⟩, fun h => h.right⟩
  · next hnot =>
      constructor
      · intro h
        cases h
      · intro h
        exact absurd h.left hnot

end Checked

end PostingIndex
