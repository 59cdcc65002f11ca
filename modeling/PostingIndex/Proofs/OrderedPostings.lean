import PostingIndex.Chain.Routing
import PostingIndex.Proofs.Ascending

/-!
# Ordered posting lists

The posting list of an entity ascends strictly by game and holds no zero count.
Such a list is determined by its members, so two ways of producing one are
compared by what they contain and not by how they were made.

## Contents

Ordered posting lists, the members of a merge, and the order of its result.
-/

namespace PostingIndex

namespace Posting

/-- A posting list as an entity may have it. -/
structure Ordered (postings : List Posting) : Prop where
  ascending : postings.Pairwise fun left right => left.game < right.game
  positive : ∀ posting ∈ postings, posting.count ≠ 0

def AscendingChanges (changes : List Change) : Prop :=
  changes.Pairwise fun left right => left.1 < right.1

theorem ordered_nil : Ordered [] where
  ascending := List.Pairwise.nil
  positive := by
    intro posting hmem
    cases hmem

theorem ordered_append {left right : List Posting} :
    Ordered (left ++ right) ↔
      Ordered left ∧ Ordered right ∧
        ∀ before ∈ left, ∀ after ∈ right, before.game < after.game := by
  constructor
  · intro h
    have hsplit := List.pairwise_append.mp h.ascending
    constructor
    · exact ⟨hsplit.left, fun posting hmem =>
        h.positive posting (List.mem_append_left _ hmem)⟩
    constructor
    · exact ⟨hsplit.right.left, fun posting hmem =>
        h.positive posting (List.mem_append_right _ hmem)⟩
    · exact hsplit.right.right
  · intro h
    rcases h with ⟨hleft, hright, hcross⟩
    constructor
    · exact List.pairwise_append.mpr ⟨hleft.ascending, hright.ascending, hcross⟩
    · intro posting hmem
      rcases List.mem_append.mp hmem with hmem | hmem
      · exact hleft.positive posting hmem
      · exact hright.positive posting hmem

theorem Ordered.sublist {shorter longer : List Posting} (h : Ordered longer)
    (hsub : List.Sublist shorter longer) : Ordered shorter where
  ascending := h.ascending.sublist hsub
  positive := fun posting hmem => h.positive posting (hsub.subset hmem)

theorem Ordered.ext {left right : List Posting} (hleft : Ordered left)
    (hright : Ordered right) (h : ∀ posting, posting ∈ left ↔ posting ∈ right) :
    left = right :=
  Ascending.ext_of_key Posting.game hleft.ascending hright.ascending h

/-!
## Cutting a list at a game
-/

theorem mem_takeWhile_game {postings : List Posting} (h : Ordered postings)
    {game : GameId} {posting : Posting} :
    posting ∈ postings.takeWhile (fun posting => posting.game < game) ↔
      posting ∈ postings ∧ posting.game < game := by
  induction postings with
  | nil =>
      simp
  | cons head rest ih =>
      have hhead := (List.pairwise_cons.mp h.ascending).left
      have hrest : Ordered rest := h.sublist (List.sublist_cons_self head rest)
      by_cases hlt : head.game < game
      · rw [List.takeWhile_cons_of_pos (by simpa using hlt)]
        simp only [List.mem_cons, ih hrest]
        constructor
        · intro hcase
          rcases hcase with heq | hmem
          · exact ⟨Or.inl heq, heq ▸ hlt⟩
          · exact ⟨Or.inr hmem.left, hmem.right⟩
        · intro hcase
          rcases hcase with ⟨heq | hmem, hgame⟩
          · exact Or.inl heq
          · exact Or.inr ⟨hmem, hgame⟩
      · rw [List.takeWhile_cons_of_neg (by simpa using hlt)]
        constructor
        · intro hmem
          cases hmem
        · intro hcase
          rcases hcase with ⟨hmem, hgame⟩
          rcases List.mem_cons.mp hmem with heq | hmem
          · exact absurd (heq ▸ hgame) hlt
          · exact absurd (UInt32.lt_trans (hhead posting hmem) hgame) hlt

theorem mem_dropGame_dropWhile {postings : List Posting} (h : Ordered postings)
    {game : GameId} {posting : Posting} :
    posting ∈ dropGame game (postings.dropWhile fun posting => posting.game < game) ↔
      posting ∈ postings ∧ game < posting.game := by
  induction postings with
  | nil =>
      simp [dropGame]
  | cons head rest ih =>
      have hhead := (List.pairwise_cons.mp h.ascending).left
      have hrest : Ordered rest := h.sublist (List.sublist_cons_self head rest)
      by_cases hlt : head.game < game
      · rw [List.dropWhile_cons_of_pos (by simpa using hlt), ih hrest]
        constructor
        · intro hcase
          exact ⟨List.mem_cons_of_mem _ hcase.left, hcase.right⟩
        · intro hcase
          rcases List.mem_cons.mp hcase.left with heq | hmem
          · exact absurd (UInt32.lt_trans hlt (heq ▸ hcase.right)) (UInt32.lt_irrefl _)
          · exact ⟨hmem, hcase.right⟩
      · rw [List.dropWhile_cons_of_neg (by simpa using hlt)]
        by_cases heq : head.game = game
        · simp only [dropGame, heq, if_true]
          constructor
          · intro hmem
            exact ⟨List.mem_cons_of_mem _ hmem, heq ▸ hhead posting hmem⟩
          · intro hcase
            rcases List.mem_cons.mp hcase.left with hsame | hmem
            · rw [hsame, heq] at hcase
              exact absurd hcase.right (UInt32.lt_irrefl _)
            · exact hmem
        · simp only [dropGame, heq, if_false]
          have hgt : game < head.game :=
            UInt32.lt_of_le_of_ne (UInt32.not_lt.mp hlt) (fun hsame => heq hsame.symm)
          constructor
          · intro hmem
            rcases List.mem_cons.mp hmem with hsame | hrestMem
            · exact ⟨hmem, hsame ▸ hgt⟩
            · exact ⟨hmem, UInt32.lt_trans hgt (hhead posting hrestMem)⟩
          · intro hcase
            exact hcase.left

theorem dropGame_sublist (game : GameId) (postings : List Posting) :
    List.Sublist (dropGame game postings) postings := by
  cases postings with
  | nil =>
      exact List.Sublist.refl _
  | cons head rest =>
      by_cases h : head.game = game
      · simp [dropGame, h]
      · simp [dropGame, h]

theorem mem_ofChange {change : Change} {posting : Posting} :
    posting ∈ ofChange change ↔
      (posting.game, posting.count) = change ∧ posting.count ≠ 0 := by
  rcases change with ⟨game, count⟩
  rcases posting with ⟨game', count'⟩
  by_cases h : count = 0
  · subst h
    simp [ofChange]
  · simp only [ofChange, h, if_false, List.mem_singleton, Posting.mk.injEq, Prod.mk.injEq]
    constructor
    · intro heq
      exact ⟨heq, heq.right ▸ h⟩
    · intro hcase
      exact hcase.left

theorem game_of_mem_ofChange {change : Change} {posting : Posting}
    (h : posting ∈ ofChange change) : posting.game = change.1 :=
  congrArg Prod.fst (mem_ofChange.mp h).left

/-!
## Merging
-/

theorem mem_merge {postings : List Posting} {changes : List Change}
    (hpostings : Ordered postings) (hchanges : AscendingChanges changes)
    {posting : Posting} :
    posting ∈ merge postings changes ↔
      ((posting.game, posting.count) ∈ changes ∧ posting.count ≠ 0) ∨
        (posting ∈ postings ∧ ∀ change ∈ changes, change.1 ≠ posting.game) := by
  induction changes generalizing postings with
  | nil =>
      simp [merge, mergeOnto]
  | cons change changes ih =>
      have hlater := (List.pairwise_cons.mp hchanges).left
      have hafter : Ordered (dropGame change.1
          (postings.dropWhile fun posting => posting.game < change.1)) :=
        hpostings.sublist ((dropGame_sublist _ _).trans (List.dropWhile_sublist _))
      rw [merge_cons]
      simp only [List.mem_append, List.mem_reverse, mem_ofChange, List.mem_cons,
        mem_takeWhile_game hpostings, ih hafter (List.pairwise_cons.mp hchanges).right,
        mem_dropGame_dropWhile hpostings, forall_eq_or_imp]
      constructor
      · intro hcase
        rcases hcase with ⟨hmem, hlt⟩ | ⟨heq, hpos⟩ | ⟨hmem, hpos⟩ | ⟨⟨hmem, hgt⟩, hfree⟩
        · have hother : ∀ later ∈ changes, later.1 ≠ posting.game := by
            intro later hlaterMem heq
            exact UInt32.lt_irrefl _
              (UInt32.lt_trans hlt (heq ▸ hlater later hlaterMem))
          exact Or.inr ⟨hmem, fun heq => UInt32.lt_irrefl _ (heq ▸ hlt), hother⟩
        · exact Or.inl ⟨Or.inl heq, hpos⟩
        · exact Or.inl ⟨Or.inr hmem, hpos⟩
        · exact Or.inr ⟨hmem, fun heq => UInt32.lt_irrefl _ (heq ▸ hgt), hfree⟩
      · intro hcase
        rcases hcase with ⟨heq | hmem, hpos⟩ | ⟨hmem, hne, hfree⟩
        · exact Or.inr (Or.inl ⟨heq, hpos⟩)
        · exact Or.inr (Or.inr (Or.inl ⟨hmem, hpos⟩))
        · by_cases hlt : posting.game < change.1
          · exact Or.inl ⟨hmem, hlt⟩
          · have hgt : change.1 < posting.game :=
              UInt32.lt_of_le_of_ne (UInt32.not_lt.mp hlt) hne
            exact Or.inr (Or.inr (Or.inr ⟨⟨hmem, hgt⟩, hfree⟩))

theorem ordered_ofChange (change : Change) : Ordered (ofChange change).reverse := by
  by_cases h : change.2 = 0
  · simp [ofChange, h, ordered_nil]
  · constructor
    · simp [ofChange, h]
    · simp [ofChange, h]

theorem ordered_merge {postings : List Posting} {changes : List Change}
    (hpostings : Ordered postings) (hchanges : AscendingChanges changes) :
    Ordered (merge postings changes) := by
  induction changes generalizing postings with
  | nil =>
      simpa [merge, mergeOnto] using hpostings
  | cons change changes ih =>
      have hlater := (List.pairwise_cons.mp hchanges).left
      have hrest := (List.pairwise_cons.mp hchanges).right
      have hbefore : Ordered
          (postings.takeWhile fun posting => posting.game < change.1) :=
        hpostings.sublist (List.takeWhile_sublist _)
      have hafter : Ordered (dropGame change.1
          (postings.dropWhile fun posting => posting.game < change.1)) :=
        hpostings.sublist ((dropGame_sublist _ _).trans (List.dropWhile_sublist _))
      -- Everything that is merged behind the change has a greater game.
      have hgreater : ∀ posting ∈ merge (dropGame change.1
          (postings.dropWhile fun posting => posting.game < change.1)) changes,
          change.1 < posting.game := by
        intro posting hmem
        rcases (mem_merge hafter hrest).mp hmem with ⟨hmem, _⟩ | ⟨hmem, _⟩
        · exact hlater _ hmem
        · exact ((mem_dropGame_dropWhile hpostings).mp hmem).right
      rw [merge_cons, ordered_append, ordered_append]
      constructor
      · exact hbefore
      constructor
      · constructor
        · exact ordered_ofChange change
        constructor
        · exact ih hafter hrest
        · intro posting hmem after hafterMem
          rw [game_of_mem_ofChange (List.mem_reverse.mp hmem)]
          exact hgreater after hafterMem
      · intro before hbeforeMem after hafterMem
        have hlt := ((mem_takeWhile_game hpostings).mp hbeforeMem).right
        rcases List.mem_append.mp hafterMem with hmem | hmem
        · rw [game_of_mem_ofChange (List.mem_reverse.mp hmem)]
          exact hlt
        · exact UInt32.lt_trans hlt (hgreater after hmem)

end Posting

theorem ascendingChanges_toList (changes : Changes) :
    Posting.AscendingChanges changes.toList := by
  have h := Std.TreeMap.ordered_keys_toList (t := changes)
  apply h.imp
  intro left right hlt
  exact compareOfLessAndEq_eq_lt.mp hlt

end PostingIndex
