import Mathlib.Data.List.Pairwise
import Mathlib.Tactic.Push
import PostingIndex.Proofs.OrderedPostings

/-!
# Counts of games in posting lists

An ordered posting list is determined by the count of each game in it.  A merge
settles the counts that its changes ask for and leaves all others alone, so it
overrides one finite map by another.  A list whose counts are settled already is
left as it is.

## Contents

Settling a count, the count of a game in a posting list and in a merge, and lists
that have the counts that changes ask for.
-/

namespace PostingIndex

/-!
## The count of one game
-/

/-- What a count becomes when another one may be asked for; count zero removes it. -/
def settle (before : Option UInt32) : Option UInt32 -> Option UInt32
  | none => before
  | some count => if count = 0 then none else some count

def numberOf (count : Option UInt32) : Nat :=
  (count.getD 0).toNat

theorem numberOf_settle_some (before : Option UInt32) (count : UInt32) :
    numberOf (settle before (some count)) = count.toNat := by
  by_cases hzero : count = 0
  · rw [settle, if_pos hzero, hzero]
    rfl
  · rw [settle, if_neg hzero]
    rfl

theorem settle_settle (before first second : Option UInt32) :
    settle (settle before first) second = settle before (second.or first) := by
  cases second with
  | none =>
      rfl
  | some count =>
      rfl

namespace Posting

/-- The count of a game in a posting list; none if the game is not listed. -/
def countIn? (postings : List Posting) (game : GameId) : Option UInt32 :=
  (postings.find? fun posting => posting.game = game).map Posting.count

theorem Ordered.eq_of_game {postings : List Posting} (h : Ordered postings)
    {left right : Posting} (hleft : left ∈ postings) (hright : right ∈ postings)
    (hgame : left.game = right.game) : left = right := by
  by_contra hne
  have hsymm : Std.Symm fun left right : Posting => left.game ≠ right.game :=
    ⟨fun _ _ => Ne.symm⟩
  have hdistinct : postings.Pairwise fun left right => left.game ≠ right.game :=
    h.ascending.imp UInt32.ne_of_lt
  exact hdistinct.forall hleft hright hne hgame

theorem countIn?_eq_some {postings : List Posting} (h : Ordered postings) {game : GameId}
    {count : UInt32} : countIn? postings game = some count ↔ { game, count } ∈ postings := by
  unfold countIn?
  rw [Option.map_eq_some_iff]
  constructor
  · rintro ⟨posting, hfind, hcount⟩
    have hgame : posting.game = game := by simpa using List.find?_some hfind
    rw [← hgame, ← hcount]
    exact List.mem_of_find?_eq_some hfind
  · intro hmem
    cases hfind : postings.find? fun posting => posting.game = game with
    | none =>
        have hnone := List.find?_eq_none.mp hfind _ hmem
        simp at hnone
    | some posting =>
        have hgame : posting.game = game := by simpa using List.find?_some hfind
        have hsame := h.eq_of_game (List.mem_of_find?_eq_some hfind) hmem hgame
        exact ⟨posting, rfl, by rw [hsame]⟩

theorem Ordered.ext_countIn? {left right : List Posting} (hleft : Ordered left)
    (hright : Ordered right) (h : ∀ game, countIn? left game = countIn? right game) :
    left = right := by
  apply hleft.ext hright
  rintro ⟨game, count⟩
  rw [← countIn?_eq_some hleft, h, countIn?_eq_some hright]

/-- A merge settles the count of a game by what its changes ask for. -/
theorem countIn?_merge_of_asked {postings : List Posting} {changes : List Change}
    (hpostings : Ordered postings) (hchanges : AscendingChanges changes) {game : GameId}
    {asked : Option UInt32} (hasked : ∀ count, (game, count) ∈ changes ↔ asked = some count) :
    countIn? (merge postings changes) game = settle (countIn? postings game) asked := by
  apply Option.ext
  intro count
  rw [countIn?_eq_some (ordered_merge hpostings hchanges), mem_merge hpostings hchanges,
    hasked, ← countIn?_eq_some hpostings]
  cases asked with
  | some new =>
      have hnamed : (game, new) ∈ changes := (hasked new).mpr rfl
      have hnot : ¬ ∀ change ∈ changes, change.1 ≠ game := fun hall => hall _ hnamed rfl
      simp only [hnot, and_false, or_false, settle, Option.some.injEq]
      split
      · next hzero =>
          simp only [reduceCtorEq, iff_false, not_and, not_not]
          intro heq
          exact heq ▸ hzero
      · next hpos =>
          simp only [Option.some.injEq, and_iff_left_iff_imp]
          intro heq
          exact heq ▸ hpos
  | none =>
      have hfree : ∀ change ∈ changes, change.1 ≠ game := by
        rintro ⟨other, new⟩ hmem heq
        have hget := (hasked new).mp (heq ▸ hmem)
        cases hget
      simp only [reduceCtorEq, false_and, false_or, settle]
      exact ⟨fun hcase => hcase.left, fun hcount => ⟨hcount, hfree⟩⟩

theorem countIn?_merge {postings : List Posting} (h : Ordered postings) (changes : Changes)
    (game : GameId) :
    countIn? (merge postings changes.toList) game =
      settle (countIn? postings game) changes[game]? :=
  countIn?_merge_of_asked h (ascendingChanges_toList changes)
    fun _ => Std.TreeMap.mem_toList_iff_getElem?_eq_some

/-!
## Counts as numbers
-/

def perGame (postings : List Posting) : List (GameId × Nat) :=
  postings.map fun posting => (posting.game, posting.count.toNat)

theorem mem_perGame {postings : List Posting} (h : Ordered postings) {game : GameId}
    {number : Nat} :
    (game, number) ∈ perGame postings ↔
      number ≠ 0 ∧ numberOf (countIn? postings game) = number := by
  rw [perGame, List.mem_map]
  constructor
  · rintro ⟨posting, hmem, heq⟩
    cases heq
    have hpositive : posting.count.toNat ≠ 0 := fun hzero =>
      h.positive posting hmem (UInt32.toNat_inj.mp hzero)
    rw [(countIn?_eq_some h).mpr hmem]
    exact ⟨hpositive, rfl⟩
  · rintro ⟨hpositive, hnumber⟩
    cases hcount : countIn? postings game with
    | none =>
        rw [hcount] at hnumber
        exact absurd hnumber.symm hpositive
    | some count =>
        rw [hcount] at hnumber
        exact ⟨{ game, count }, (countIn?_eq_some h).mp hcount,
          congrArg (Prod.mk game) hnumber⟩

theorem Ordered.ascending_perGame {postings : List Posting} (h : Ordered postings) :
    (perGame postings).Pairwise fun left right => left.1 < right.1 :=
  List.pairwise_map.mpr h.ascending

/-!
## Overriding counts
-/

theorem lookup_eq_some_iff {changes : List Change}
    (h : changes.Pairwise fun left right => left.1 ≠ right.1)
    {game : GameId} {count : UInt32} :
    changes.lookup game = some count ↔ (game, count) ∈ changes := by
  rw [List.lookup_eq_some_iff]
  constructor
  · rintro ⟨before, after, rfl, _⟩
    exact List.mem_append_right _ List.mem_cons_self
  · intro hmem
    rcases List.append_of_mem hmem with ⟨before, after, rfl⟩
    refine ⟨before, after, rfl, ?_⟩
    intro earlier hearlier
    have hne := (List.pairwise_append.mp h).right.right earlier hearlier _ List.mem_cons_self
    simpa using hne.symm

/--
A merge overrides the counts of a posting list.  Where the postings ascend without zero
counts and the changes ascend, so do the merged postings, and a game has the count that
a change gives it, none if that is zero, and the count from before where no change names
it.
-/
theorem merge_overrides_counts {postings : List Posting} {changes : List Change}
    (hpostings : Ordered postings) (hchanges : AscendingChanges changes) :
    Ordered (merge postings changes) ∧
      ∀ game, countIn? (merge postings changes) game =
        match changes.lookup game with
        | none => countIn? postings game
        | some count => if count = 0 then none else some count := by
  constructor
  · exact ordered_merge hpostings hchanges
  · intro game
    have hdistinct := hchanges.imp UInt32.ne_of_lt
    rw [countIn?_merge_of_asked hpostings hchanges fun _ => (lookup_eq_some_iff hdistinct).symm]
    cases changes.lookup game with
    | none =>
        rfl
    | some count =>
        rfl

/-- A game is inserted, one replaced, one deleted, and one deleted that is not listed. -/
theorem merge_overrides_counts_mixed :
    let postings : List Posting :=
      [{ game := 2, count := 1 }, { game := 5, count := 2 }, { game := 9, count := 1 }]
    let changes : List Change := [(1, 3), (5, 1), (7, 0), (9, 0)]
    Ordered postings ∧ AscendingChanges changes ∧
      Ordered (merge postings changes) ∧
        countIn? (merge postings changes) 1 = some 3 ∧
        countIn? (merge postings changes) 2 = some 1 ∧
        countIn? (merge postings changes) 5 = some 1 ∧
        countIn? (merge postings changes) 7 = none ∧
        countIn? (merge postings changes) 9 = none := by
  intro postings changes
  have hpostings : Ordered postings := ⟨by decide, by decide⟩
  have hchanges : AscendingChanges changes := by unfold AscendingChanges; decide
  rcases merge_overrides_counts hpostings hchanges with ⟨hordered, hcount⟩
  exact ⟨hpostings, hchanges, hordered, hcount 1, hcount 2, hcount 5, hcount 7, hcount 9⟩

end Posting

/-!
## Changes that are settled already
-/

namespace Posting

theorem countIn?_append (left right : List Posting) (game : GameId) :
    countIn? (left ++ right) game = (countIn? left game).or (countIn? right game) := by
  unfold countIn?
  rw [List.find?_append]
  cases left.find? fun posting => posting.game = game with
  | none =>
      rfl
  | some posting =>
      rfl

theorem countIn?_eq_none {postings : List Posting} {game : GameId} :
    countIn? postings game = none ↔ ∀ posting ∈ postings, posting.game ≠ game := by
  simp [countIn?]

/-- Every game that changes name has the count that they ask for. -/
def Reflects (postings : List Posting) (changes : List Change) : Prop :=
  ∀ change ∈ changes, countIn? postings change.1 = settle none (some change.2)

theorem merge_of_reflects {postings : List Posting} {changes : List Change}
    (hpostings : Ordered postings) (hchanges : AscendingChanges changes)
    (h : Reflects postings changes) : merge postings changes = postings := by
  apply (ordered_merge hpostings hchanges).ext hpostings
  intro posting
  rw [mem_merge hpostings hchanges]
  constructor
  · rintro (⟨hchange, hcount⟩ | ⟨hmem, _⟩)
    · have hlisted := h _ hchange
      rw [settle, if_neg hcount] at hlisted
      exact (countIn?_eq_some hpostings).mp hlisted
    · exact hmem
  · intro hmem
    by_cases hnamed : ∃ change ∈ changes, change.1 = posting.game
    · rcases hnamed with ⟨change, hchange, hgame⟩
      have hlisted := h change hchange
      rw [hgame, (countIn?_eq_some hpostings).mpr hmem, settle] at hlisted
      have hcount := hpostings.positive posting hmem
      split at hlisted
      · cases hlisted
      · have hsame : (posting.game, posting.count) = change :=
          Prod.ext hgame.symm (Option.some.inj hlisted)
        exact Or.inl ⟨hsame ▸ hchange, hcount⟩
    · push Not at hnamed
      exact Or.inr ⟨hmem, hnamed⟩

theorem Reflects.split {left right : List Posting} {lower upper : List Change}
    (h : Reflects (left ++ right) (lower ++ upper))
    (hlower : ∀ change ∈ lower, ∀ posting ∈ right, change.1 < posting.game)
    (hupper : ∀ change ∈ upper, ∀ posting ∈ left, posting.game < change.1) :
    Reflects left lower ∧ Reflects right upper := by
  constructor
  · intro change hmem
    have hnone : countIn? right change.1 = none :=
      countIn?_eq_none.mpr fun posting hposting =>
        (UInt32.ne_of_lt (hlower change hmem posting hposting)).symm
    rw [← h change (List.mem_append_left _ hmem), countIn?_append, hnone, Option.or_none]
  · intro change hmem
    have hnone : countIn? left change.1 = none :=
      countIn?_eq_none.mpr fun posting hposting =>
        UInt32.ne_of_lt (hupper change hmem posting hposting)
    rw [← h change (List.mem_append_right _ hmem), countIn?_append, hnone, Option.none_or]

end Posting

end PostingIndex
