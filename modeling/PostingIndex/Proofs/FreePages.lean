import Mathlib.Algebra.GroupWithZero.Nat
import PostingIndex.File.Image
import PostingIndex.Proofs.BlockNumbers
import PostingIndex.Proofs.HeaderCodec

/-!
# Free numbers in files

A file says twice which block numbers are free: by a list and by a mark on each
page.

## Contents

Sorted rows of numbers, the numbers of marked pages, the set of a list that
names them, and the list that is read back.
-/

namespace PostingIndex

namespace Ascending

theorem place_of_forall_lt {id : BlockId} {ids : List BlockId}
    (h : ∀ other ∈ ids, id < other) : place id ids = id :: ids := by
  cases ids with
  | nil =>
      rfl
  | cons head rest =>
      rw [place, if_pos (UInt32.le_of_lt (h head (by simp)))]

theorem sort_of_ascending {ids : List BlockId} (h : ids.Pairwise (· < ·)) :
    sort ids = ids := by
  induction ids with
  | nil =>
      rfl
  | cons id rest ih =>
      rcases List.pairwise_cons.mp h with ⟨hless, hrest⟩
      rw [sort, List.foldr_cons]
      show place id (sort rest) = _
      rw [ih hrest, place_of_forall_lt hless]

theorem ids_ofList {ids : List BlockId} (h : (sort ids).Pairwise (· < ·)) :
    (IdSet.ofList ids).ids = sort ids := by
  apply ext_of_key id (IdSet.ofList ids).ascending h
  intro other
  rw [(perm_sort ids).mem_iff]
  exact IdSet.mem_ofList

end Ascending

theorem IdSet.ofList_ids (set : IdSet) : IdSet.ofList set.ids = set :=
  IdSet.ext_mem fun _ => IdSet.mem_ofList

namespace File

theorem mem_markedFree {pages : List Page} {id : BlockId} :
    id ∈ markedFree pages ↔
      ∃ number page, pages[number]? = some page ∧ page.free = true ∧
        UInt32.ofNat number = id := by
  rw [markedFree, List.mem_filterMap]
  constructor
  · intro h
    rcases h with ⟨⟨page, number⟩, hmem, hid⟩
    have hget := List.mk_mem_zipIdx_iff_getElem?.mp hmem
    by_cases hfree : page.free = true
    · simp only [hfree, if_true, Option.some.injEq] at hid
      exact ⟨number, page, hget, hfree, hid⟩
    · simp [hfree] at hid
  · intro h
    rcases h with ⟨number, page, hget, hfree, hid⟩
    exact ⟨(page, number), List.mk_mem_zipIdx_iff_getElem?.mpr hget, by simp [hfree, hid]⟩

theorem markedFree_ascending {pages : List Page} (h : pages.length ≤ 2 ^ 32) :
    (markedFree pages).Pairwise (· < ·) := by
  have hnumbers : pages.zipIdx.Pairwise fun left right => left.2 < right.2 := by
    have hrange : (pages.zipIdx.map Prod.snd).Pairwise (· < ·) := by
      rw [List.zipIdx_map_snd]
      exact List.pairwise_lt_range'
    exact List.pairwise_map.mp hrange
  have hbounded : pages.zipIdx.Pairwise fun left right =>
      left.2 < right.2 ∧ right.2 < 2 ^ 32 := by
    apply hnumbers.imp_of_mem
    intro left right _ hright hlt
    have hget := List.mk_mem_zipIdx_iff_getElem?.mp hright
    exact ⟨hlt, Nat.lt_of_lt_of_le (List.getElem?_eq_some_iff.mp hget).choose h⟩
  rw [markedFree]
  apply List.Pairwise.filterMap _ _ hbounded
  intro left right hlt id hid other hother
  by_cases hleft : left.1.free = true
  · by_cases hright : right.1.free = true
    · simp only [hleft, if_true, Option.some.injEq] at hid
      simp only [hright, if_true, Option.some.injEq] at hother
      rw [← hid, ← hother, UInt32.lt_iff_toNat_lt,
        UInt32.toNat_ofNat_of_lt' (Nat.lt_trans hlt.left hlt.right),
        UInt32.toNat_ofNat_of_lt' hlt.right]
      exact hlt.left
    · simp [hright] at hother
  · simp [hleft] at hid

theorem readIds_append (read ids : List BlockId) (rest : List UInt8) :
    readIds read ids.length
        ((ids.flatMap fun id => LittleEndian.bytes 4 id.toNat) ++ rest) =
      some (read.reverse ++ ids) := by
  induction ids generalizing read with
  | nil =>
      simp [readIds]
  | cons id others ih =>
      rw [List.flatMap_cons, List.append_assoc, List.length_cons, readIds,
        LittleEndian.read?_word32]
      simp only [UInt32.ofNat_toNat, ih]
      simp

theorem length_flatMap_bytes (ids : List BlockId) :
    (ids.flatMap fun id => LittleEndian.bytes 4 id.toNat).length = ids.length * 4 := by
  induction ids with
  | nil =>
      rfl
  | cons id others ih =>
      rw [List.flatMap_cons, List.length_append, LittleEndian.length_bytes, ih,
        List.length_cons]
      omega

end File

end PostingIndex
