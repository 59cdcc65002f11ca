import Std.Data.TreeSet
import PostingIndex.Posting

/-!
# Sets of block numbers

Free blocks are kept as a set of block numbers that can give up its least
member.  The members are listed in ascending order, so equal sets are equal
lists.

## Contents

Ordered insertion into lists of numbers, sets of numbers, and the membership
laws of their operations.
-/

namespace PostingIndex

/-!
## Ascending lists of numbers
-/

namespace Ascending

def place (id : BlockId) : List BlockId -> List BlockId
  | [] => [id]
  | head :: rest =>
      if id ≤ head then id :: head :: rest else head :: place id rest

def sort (ids : List BlockId) : List BlockId :=
  ids.foldr place []

def insert (id : BlockId) : List BlockId -> List BlockId
  | [] => [id]
  | head :: rest =>
      if id < head then
        id :: head :: rest
      else if id = head then
        head :: rest
      else
        head :: insert id rest

theorem mem_insert {id other : BlockId} {ids : List BlockId} :
    other ∈ insert id ids ↔ other = id ∨ other ∈ ids := by
  induction ids with
  | nil =>
      simp [insert]
  | cons head rest ih =>
      by_cases hlt : id < head
      · simp [insert, hlt]
      · by_cases heq : id = head
        · simp [insert, heq]
        · simp only [insert, hlt, heq, if_false, List.mem_cons, ih]
          constructor
          · intro h
            rcases h with h | h | h
            · exact Or.inr (Or.inl h)
            · exact Or.inl h
            · exact Or.inr (Or.inr h)
          · intro h
            rcases h with h | h | h
            · exact Or.inr (Or.inl h)
            · exact Or.inl h
            · exact Or.inr (Or.inr h)

theorem pairwise_insert {id : BlockId} {ids : List BlockId}
    (h : ids.Pairwise (· < ·)) : (insert id ids).Pairwise (· < ·) := by
  induction ids with
  | nil =>
      simp [insert]
  | cons head rest ih =>
      have hrest : rest.Pairwise (· < ·) := (List.pairwise_cons.mp h).right
      have hhead : ∀ other ∈ rest, head < other := (List.pairwise_cons.mp h).left
      by_cases hlt : id < head
      · simp only [insert, hlt, if_true]
        apply List.pairwise_cons.mpr
        constructor
        · intro other hother
          rcases List.mem_cons.mp hother with heq | hmem
          · exact heq ▸ hlt
          · exact UInt32.lt_trans hlt (hhead other hmem)
        · exact h
      · by_cases heq : id = head
        · simpa [insert, heq] using h
        · simp only [insert, hlt, heq, if_false]
          apply List.pairwise_cons.mpr
          constructor
          · intro other hother
            rcases mem_insert.mp hother with hid | hmem
            · have hle : head ≤ id := UInt32.not_lt.mp hlt
              have hne : head ≠ id := fun hsame => heq hsame.symm
              rw [hid]
              exact UInt32.lt_of_le_of_ne hle hne
            · exact hhead other hmem
          · exact ih hrest

end Ascending

/-!
## Sets
-/

/-- Block numbers in a tree, where looking one up is fast. -/
abbrev IdTree :=
  Std.TreeSet BlockId

/-- A finite set of block numbers. -/
structure IdSet where
  ids : List BlockId
  ascending : ids.Pairwise (· < ·)
deriving DecidableEq

namespace IdSet

def empty : IdSet :=
  { ids := [], ascending := List.Pairwise.nil }

instance : Inhabited IdSet where
  default := empty

instance : Membership BlockId IdSet where
  mem set id := id ∈ set.ids

instance (id : BlockId) (set : IdSet) : Decidable (id ∈ set) :=
  inferInstanceAs (Decidable (id ∈ set.ids))

def size (set : IdSet) : Nat :=
  set.ids.length

def insert (set : IdSet) (id : BlockId) : IdSet :=
  { ids := Ascending.insert id set.ids
    ascending := Ascending.pairwise_insert set.ascending }

def ofList (ids : List BlockId) : IdSet :=
  ids.foldr (fun id set => set.insert id) empty

def tree (set : IdSet) : IdTree :=
  Std.TreeSet.ofList set.ids

def takeLeast? (set : IdSet) : Option (BlockId × IdSet) :=
  match set with
  | { ids := [], .. } => none
  | { ids := id :: rest, ascending := h } =>
      some (id, { ids := rest, ascending := (List.pairwise_cons.mp h).right })

@[simp]
theorem mem_insert {set : IdSet} {id other : BlockId} :
    other ∈ set.insert id ↔ other = id ∨ other ∈ set :=
  Ascending.mem_insert

@[simp]
theorem not_mem_empty (id : BlockId) : id ∉ empty := by
  intro h
  cases h

@[simp]
theorem contains_tree {set : IdSet} {id : BlockId} :
    set.tree.contains id = decide (id ∈ set) := by
  have hlist : (id ∈ set) = (id ∈ set.ids) := rfl
  simp [tree, hlist]

theorem mem_ofList {ids : List BlockId} {id : BlockId} :
    id ∈ ofList ids ↔ id ∈ ids := by
  induction ids with
  | nil =>
      simp [ofList]
  | cons head rest ih =>
      have hstep : ofList (head :: rest) = (ofList rest).insert head := rfl
      rw [hstep, mem_insert, ih, List.mem_cons]

end IdSet

end PostingIndex
