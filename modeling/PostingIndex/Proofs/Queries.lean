import PostingIndex.Proofs.ChainWalk
import PostingIndex.Query

/-!
# Queries as set operations

Every list of games that an index answers ascends strictly, because the chain it
was read from does.  On such lists the search for common numbers finds the
intersection, whichever list it starts from, and a sorted row without repetitions
is the union.  A strictly ascending list is determined by its members, so the
answers depend on which entities are asked for and not on their order.

## Contents

Common numbers of ascending lists, rows without repetitions, the lists of
several entities, and the two queries.
-/

namespace PostingIndex

namespace Ascending

/-!
## Common numbers
-/

theorem mem_dropWhile_lt {ids : List GameId} (h : ids.Pairwise (· < ·)) {bound id : GameId} :
    id ∈ ids.dropWhile (· < bound) ↔ id ∈ ids ∧ bound ≤ id := by
  induction ids with
  | nil =>
      simp
  | cons head rest ih =>
      rcases List.pairwise_cons.mp h with ⟨hhead, hrest⟩
      by_cases hlt : head < bound
      · rw [List.dropWhile_cons_of_pos (by simpa using hlt), ih hrest, List.mem_cons]
        constructor
        · intro hcase
          exact ⟨Or.inr hcase.left, hcase.right⟩
        · rintro ⟨heq | hmem, hle⟩
          · exact absurd (heq ▸ hlt) (UInt32.not_lt.mpr hle)
          · exact ⟨hmem, hle⟩
      · have hle : bound ≤ head := UInt32.not_lt.mp hlt
        rw [List.dropWhile_cons_of_neg (by simpa using hlt)]
        constructor
        · intro hmem
          refine ⟨hmem, ?_⟩
          rcases List.mem_cons.mp hmem with heq | hmem
          · exact heq ▸ hle
          · exact UInt32.le_of_lt (UInt32.lt_of_le_of_lt hle (hhead id hmem))
        · intro hcase
          exact hcase.left

theorem commonOnto_eq (found left right : List GameId) :
    commonOnto found left right = found.reverse ++ common left right := by
  rw [common]
  induction left generalizing found right with
  | nil =>
      simp [commonOnto]
  | cons head rest ih =>
      unfold commonOnto
      cases right.dropWhile (· < head) with
      | nil =>
          simp
      | cons next later =>
          by_cases hsame : next = head
          · simp only [hsame, if_true]
            rw [ih, ih [head], List.reverse_cons, List.append_assoc]
            rfl
          · simp only [hsame, if_false]
            exact ih found (next :: later)

theorem common_cons (head : GameId) (rest right : List GameId) :
    common (head :: rest) right =
      match right.dropWhile (· < head) with
      | [] => []
      | next :: later =>
          if next = head then head :: common rest later else common rest (next :: later) := by
  rw [common, commonOnto]
  cases right.dropWhile (· < head) with
  | nil =>
      rfl
  | cons next later =>
      by_cases hsame : next = head
      · simp only [hsame, if_true]
        exact commonOnto_eq [head] rest later
      · simp only [hsame, if_false]
        rfl

theorem common_sublist (left right : List GameId) : (common left right).Sublist left := by
  induction left generalizing right with
  | nil =>
      exact List.Sublist.refl _
  | cons head rest ih =>
      rw [common_cons]
      cases right.dropWhile (· < head) with
      | nil =>
          exact List.nil_sublist _
      | cons next later =>
          by_cases hsame : next = head
          · simp only [hsame, if_true]
            exact (ih later).cons_cons head
          · simp only [hsame, if_false]
            exact (ih (next :: later)).cons head

theorem not_mem_of_lt_head {id next : GameId} {later : List GameId}
    (h : (next :: later).Pairwise (· < ·)) (hlt : id < next) : id ∉ next :: later := by
  intro hmem
  rcases List.mem_cons.mp hmem with heq | hmem
  · exact UInt32.ne_of_lt hlt heq
  · exact UInt32.lt_irrefl _ (UInt32.lt_trans hlt ((List.pairwise_cons.mp h).left id hmem))

theorem mem_common {left right : List GameId} (hleft : left.Pairwise (· < ·))
    (hright : right.Pairwise (· < ·)) {id : GameId} :
    id ∈ common left right ↔ id ∈ left ∧ id ∈ right := by
  induction left generalizing right with
  | nil =>
      simp [common, commonOnto]
  | cons head rest ih =>
      rcases List.pairwise_cons.mp hleft with ⟨hhead, hrest⟩
      have hdrop : (right.dropWhile (· < head)).Pairwise (· < ·) :=
        hright.sublist (List.dropWhile_sublist _)
      have hleast : ∀ id ∈ right.dropWhile (· < head), head ≤ id :=
        fun id hmem => ((mem_dropWhile_lt hright).mp hmem).right
      -- What was dropped is below every number of the left list.
      have hkept : id ∈ head :: rest ∧ id ∈ right ↔
          id ∈ head :: rest ∧ id ∈ right.dropWhile (· < head) := by
        rw [mem_dropWhile_lt hright]
        refine and_congr_right fun hmem => (and_iff_left ?_).symm
        rcases List.mem_cons.mp hmem with heq | hmem
        · exact heq ▸ UInt32.le_refl _
        · exact UInt32.le_of_lt (hhead id hmem)
      rw [hkept, common_cons]
      cases hrow : right.dropWhile (· < head) with
      | nil =>
          simp
      | cons next later =>
          rw [hrow] at hdrop hleast
          by_cases hsame : next = head
          · subst hsame
            simp only [if_true, List.mem_cons, ih hrest (List.pairwise_cons.mp hdrop).right]
            exact or_and_left
          · have hlt : head < next := UInt32.lt_of_le_of_ne
              (hleast next List.mem_cons_self) (Ne.symm hsame)
            simp only [hsame, if_false, ih hrest hdrop]
            constructor
            · intro hcase
              exact ⟨List.mem_cons_of_mem _ hcase.left, hcase.right⟩
            · rintro ⟨hmem, hin⟩
              rcases List.mem_cons.mp hmem with heq | hmem
              · exact absurd (heq ▸ hin) (not_mem_of_lt_head hdrop hlt)
              · exact ⟨hmem, hin⟩

theorem commonToRest_sublist (found : List GameId) (lists : List (List GameId)) :
    (commonToRest found lists).Sublist found := by
  induction lists generalizing found with
  | nil =>
      exact List.Sublist.refl _
  | cons list rest ih =>
      rw [commonToRest]
      split
      · exact List.Sublist.refl _
      · exact (ih _).trans (common_sublist found list)

/-- To stop early changes nothing: what is in no list is not in all of them. -/
theorem mem_commonToRest {found : List GameId} {lists : List (List GameId)}
    (hfound : found.Pairwise (· < ·)) (hlists : ∀ list ∈ lists, list.Pairwise (· < ·))
    {id : GameId} : id ∈ commonToRest found lists ↔ id ∈ found ∧ ∀ list ∈ lists, id ∈ list := by
  induction lists generalizing found with
  | nil =>
      simp [commonToRest]
  | cons list rest ih =>
      rcases List.forall_mem_cons.mp hlists with ⟨hlist, hrest⟩
      rw [commonToRest]
      split
      · next hempty =>
          simp [List.isEmpty_iff.mp hempty]
      · have hcommon := hfound.sublist (common_sublist found list)
        rw [ih hcommon hrest, mem_common hfound hlist, List.forall_mem_cons, and_assoc]

theorem mem_commonToAll {lists : List (List GameId)}
    (hlists : ∀ list ∈ lists, list.Pairwise (· < ·)) {id : GameId} :
    id ∈ commonToAll lists ↔ lists ≠ [] ∧ ∀ list ∈ lists, id ∈ list := by
  -- Members do not tell which list comes first.
  have hperm := List.mergeSort_perm lists fun left right => left.length ≤ right.length
  rw [commonToAll]
  cases hsorted : lists.mergeSort fun left right => left.length ≤ right.length with
  | nil =>
      rw [hsorted] at hperm
      simp [hperm.symm.eq_nil]
  | cons shortest rest =>
      rw [hsorted] at hperm
      have hne : lists ≠ [] := by
        intro hnil
        rw [hnil] at hperm
        exact List.cons_ne_nil _ _ hperm.eq_nil
      have hall : ∀ list ∈ shortest :: rest, list.Pairwise (· < ·) :=
        fun list hmem => hlists list (hperm.mem_iff.mp hmem)
      rcases List.forall_mem_cons.mp hall with ⟨hshortest, hrest⟩
      show id ∈ commonToRest shortest rest ↔ _
      rw [mem_commonToRest hshortest hrest, ← List.forall_mem_cons (p := fun list => id ∈ list),
        and_iff_right hne]
      simp only [hperm.mem_iff]

theorem pairwise_commonToAll {lists : List (List GameId)}
    (hlists : ∀ list ∈ lists, list.Pairwise (· < ·)) :
    (commonToAll lists).Pairwise (· < ·) := by
  rw [commonToAll]
  cases hsorted : lists.mergeSort fun left right => left.length ≤ right.length with
  | nil =>
      exact List.Pairwise.nil
  | cons shortest rest =>
      have hmem : shortest ∈ lists := by
        rw [← List.mem_mergeSort, hsorted]
        exact List.mem_cons_self
      exact (hlists shortest hmem).sublist (commonToRest_sublist shortest rest)

/-!
## Rows without repetitions
-/

theorem eraseRepsBy_loop_eq (id : GameId) (ids done : List GameId) :
    List.eraseRepsBy.loop (· == ·) id ids done =
      done.reverse ++ List.eraseRepsBy.loop (· == ·) id ids [] := by
  induction ids generalizing id done with
  | nil =>
      simp [List.eraseRepsBy.loop]
  | cons head rest ih =>
      simp only [List.eraseRepsBy.loop]
      cases id == head with
      | true =>
          exact ih id done
      | false =>
          simp only
          rw [ih head (id :: done), ih head [id], List.reverse_cons, List.append_assoc]
          rfl

theorem eraseReps_cons_cons (id head : GameId) (rest : List GameId) :
    (id :: head :: rest).eraseReps =
      if id = head then (head :: rest).eraseReps else id :: (head :: rest).eraseReps := by
  by_cases hsame : id = head
  · subst hsame
    simp [List.eraseReps, List.eraseRepsBy, List.eraseRepsBy.loop]
  · simp only [List.eraseReps, List.eraseRepsBy, List.eraseRepsBy.loop,
      beq_eq_false_iff_ne.mpr hsame, if_neg hsame]
    exact eraseRepsBy_loop_eq head rest [id]

theorem mem_eraseReps {ids : List GameId} {id : GameId} : id ∈ ids.eraseReps ↔ id ∈ ids := by
  match ids with
  | [] =>
      rfl
  | [only] =>
      rfl
  | first :: second :: rest =>
      rw [eraseReps_cons_cons]
      have ih : id ∈ (second :: rest).eraseReps ↔ id ∈ second :: rest := mem_eraseReps
      by_cases hsame : first = second
      · subst hsame
        rw [if_pos rfl, ih]
        simp
      · rw [if_neg hsame, List.mem_cons, ih, ← List.mem_cons]

theorem pairwise_eraseReps {ids : List GameId} (h : ids.Pairwise (· ≤ ·)) :
    ids.eraseReps.Pairwise (· < ·) := by
  match ids with
  | [] =>
      exact List.Pairwise.nil
  | [only] =>
      exact List.pairwise_singleton _ _
  | first :: second :: rest =>
      rcases List.pairwise_cons.mp h with ⟨hfirst, hrest⟩
      have ih := pairwise_eraseReps hrest
      rw [eraseReps_cons_cons]
      by_cases hsame : first = second
      · rw [if_pos hsame]
        exact ih
      · rw [if_neg hsame]
        refine List.pairwise_cons.mpr ⟨?_, ih⟩
        intro id hmem
        have hlt : first < second :=
          UInt32.lt_of_le_of_ne (hfirst second List.mem_cons_self) hsame
        rcases List.mem_cons.mp (mem_eraseReps.mp hmem) with heq | hmem
        · exact heq ▸ hlt
        · exact UInt32.lt_of_lt_of_le hlt ((List.pairwise_cons.mp hrest).left id hmem)

theorem mem_merged {lists : List (List GameId)} {id : GameId} :
    id ∈ merged lists ↔ ∃ list ∈ lists, id ∈ list := by
  rw [merged, mem_eraseReps, List.mem_mergeSort, List.mem_flatten]

theorem pairwise_merged (lists : List (List GameId)) : (merged lists).Pairwise (· < ·) := by
  apply pairwise_eraseReps
  have htotal : ∀ left right : GameId,
      (decide (left ≤ right) || decide (right ≤ left)) = true := by
    intro left right
    simpa using UInt32.le_total left right
  have htrans : ∀ left between right : GameId, decide (left ≤ between) = true ->
      decide (between ≤ right) = true -> decide (left ≤ right) = true := by
    intro left between right hleft hright
    exact decide_eq_true (UInt32.le_trans (of_decide_eq_true hleft) (of_decide_eq_true hright))
  exact (List.pairwise_mergeSort htrans htotal lists.flatten).imp of_decide_eq_true

end Ascending

theorem Posting.Ordered.pairwise_games {postings : List Posting} (h : Ordered postings) :
    (games postings).Pairwise (· < ·) :=
  List.pairwise_map.mpr h.ascending

namespace Index

/-!
## The lists of entities
-/

/-- Whatever is wrong with an index, a posting list that can be read is ordered. -/
theorem ordered_of_postings {index : Index} {entity : Entity} {postings : List Posting}
    (h : index.postings entity = .ok postings) : Posting.Ordered postings := by
  rcases Outcome.map_eq_ok.mp h with ⟨chain, hchain, heq⟩
  rw [Index.chain, Outcome.bind_eq_ok] at hchain
  rcases hchain with ⟨head, _, hwalk⟩
  exact heq ▸ (BlockSource.chain_eq_ok.mp hwalk).right.right.ordered

theorem pairwise_games {index : Index} {entity : Entity} {games : List GameId}
    (h : index.games false entity = .ok games) : games.Pairwise (· < ·) := by
  rcases Outcome.map_eq_ok.mp h with ⟨postings, hpostings, heq⟩
  exact heq ▸ (ordered_of_postings hpostings).pairwise_games

def Lists (index : Index) (entity : Entity) (game : GameId) : Prop :=
  ∃ games, index.games false entity = .ok games ∧ game ∈ games

/-- Why the games of some entity cannot be read, for the first one of which they cannot. -/
def firstFailure? (index : Index) (entities : List Entity) : Option IndexError :=
  entities.findSome? fun entity => Outcome.failure? (index.games false entity)

theorem exists_gameLists {index : Index} {entities : List Entity}
    (h : ∀ entity ∈ entities, ∃ games, index.games false entity = .ok games) :
    ∃ lists, index.gameLists entities = .ok lists ∧
      (∀ list ∈ lists, list.Pairwise (· < ·)) ∧ (lists = [] ↔ entities = []) ∧
      ∀ game, ((∀ list ∈ lists, game ∈ list) ↔ ∀ entity ∈ entities, index.Lists entity game) ∧
        ((∃ list ∈ lists, game ∈ list) ↔ ∃ entity ∈ entities, index.Lists entity game) := by
  rcases Outcome.exists_mapM_eq_ok h with ⟨lists, hlists⟩
  refine ⟨lists, hlists, ?_⟩
  have hpairs := Outcome.mapM_eq_ok.mp hlists
  clear h hlists
  induction hpairs with
  | nil =>
      simp
  | @cons entity games entities lists hgames hrest ih =>
      rcases ih with ⟨hordered, _, hmem⟩
      have hlisted : ∀ game, index.Lists entity game ↔ game ∈ games := by
        intro game
        simp [Lists, hgames]
      refine ⟨?_, by simp, ?_⟩
      · exact List.forall_mem_cons.mpr ⟨pairwise_games hgames, hordered⟩
      · intro game
        simp [hlisted, hmem]

/-!
## The queries
-/

/--
Both queries about some entities succeed.  The one lists the games that all
entities have, and the other the games that any of them has.
-/
structure Combines (index : Index) (entities : List Entity) (all any : List GameId) :
    Prop where
  gamesWithAll : index.gamesWithAll entities = .ok all
  gamesWithAny : index.gamesWithAny entities = .ok any
  allAscending : all.Pairwise (· < ·)
  anyAscending : any.Pairwise (· < ·)
  intersection : ∀ game, game ∈ all ↔
    entities ≠ [] ∧ ∀ entity ∈ entities, index.Lists entity game
  union : ∀ game, game ∈ any ↔ ∃ entity ∈ entities, index.Lists entity game

theorem exists_combines {index : Index} {entities : List Entity}
    (h : ∀ entity ∈ entities, ∃ games, index.games false entity = .ok games) :
    ∃ all any, index.Combines entities all any := by
  rcases exists_gameLists h with ⟨lists, hlists, hordered, hnil, hmem⟩
  refine ⟨Ascending.commonToAll lists, Ascending.merged lists, ?_⟩
  constructor
  · rw [Index.gamesWithAll, hlists]
    rfl
  · rw [Index.gamesWithAny, hlists]
    rfl
  · exact Ascending.pairwise_commonToAll hordered
  · exact Ascending.pairwise_merged lists
  · intro game
    rw [Ascending.mem_commonToAll hordered, (hmem game).left, Ne, hnil]
  · intro game
    rw [Ascending.mem_merged, (hmem game).right]

theorem Combines.eq_of_mem_iff {index : Index} {entities others : List Entity}
    {all any otherAll otherAny : List GameId} (h : index.Combines entities all any)
    (hother : index.Combines others otherAll otherAny)
    (hsame : ∀ entity, entity ∈ others ↔ entity ∈ entities) :
    otherAll = all ∧ otherAny = any := by
  have hnil : others = [] ↔ entities = [] := by
    simp only [List.eq_nil_iff_forall_not_mem, hsame]
  constructor
  · apply Ascending.ext_of_key id hother.allAscending h.allAscending
    intro game
    rw [h.intersection, hother.intersection, Ne, hnil]
    simp only [hsame]
  · apply Ascending.ext_of_key id hother.anyAscending h.anyAscending
    intro game
    rw [h.union, hother.union]
    simp only [hsame]

/--
A query fails exactly if the games of some entity cannot be read, for the reason
that the first such entity gives.  Otherwise the queries answer the intersection
and the union of the lists, ascending, and the same for every other row of the
same entities.
-/
theorem queries_are_set_operations (index : Index) (entities : List Entity) :
    (∀ error, index.gamesWithAll entities = .error error ↔
      index.firstFailure? entities = some error) ∧
    (∀ error, index.gamesWithAny entities = .error error ↔
      index.firstFailure? entities = some error) ∧
    ((∀ entity ∈ entities, ∃ games, index.games false entity = .ok games) ->
      ∃ all any, ∀ others, (∀ entity, entity ∈ others ↔ entity ∈ entities) ->
        index.Combines others all any) := by
  refine ⟨?_, ?_, ?_⟩
  · intro error
    rw [gamesWithAll, Outcome.map_eq_error]
    exact Outcome.mapM_eq_error
  · intro error
    rw [gamesWithAny, Outcome.map_eq_error]
    exact Outcome.mapM_eq_error
  · intro hread
    rcases exists_combines hread with ⟨all, any, hcombines⟩
    refine ⟨all, any, ?_⟩
    intro others hsame
    have hothers : ∀ entity ∈ others, ∃ games, index.games false entity = .ok games :=
      fun entity hmem => hread entity ((hsame entity).mp hmem)
    rcases exists_combines hothers with ⟨otherAll, otherAny, hother⟩
    rcases hcombines.eq_of_mem_iff hother hsame with ⟨hall, hany⟩
    exact hall ▸ hany ▸ hother

/-- Of two players with a game in common, the second one is named twice and first. -/
theorem queries_are_set_operations_players :
    let index : Index :=
      { capacity := 2
        pool := { numBlocks := 3 }
        heads := { rows := [{ type := .player, heads := #[some 2, some 1] }] }
        arena := { blocks := #[
          { postings := [{ game := 7, count := 1 }] },
          { postings := [{ game := 4, count := 1 }, { game := 9, count := 2 }] },
          { postings := [{ game := 1, count := 1 }, { game := 4, count := 1 }], next := some 0 }] }
        usable := by decide }
    let first : Entity := { type := .player, id := 0 }
    let second : Entity := { type := .player, id := 1 }
    (∀ entity ∈ [first, second], ∃ games, index.games false entity = .ok games) ∧
      (∀ entity, entity ∈ [second, first, second] ↔ entity ∈ [first, second]) ∧
      ∃ all any, index.Combines [second, first, second] all any := by
  intro index first second
  have hfirst : index.games false first = .ok [1, 4, 7] := by decide +kernel
  have hsecond : index.games false second = .ok [4, 9] := by decide +kernel
  have hread : ∀ entity ∈ [first, second], ∃ games, index.games false entity = .ok games := by
    simp [hfirst, hsecond]
  have hsame : ∀ entity, entity ∈ [second, first, second] ↔ entity ∈ [first, second] := by
    simp [or_comm]
  rcases (queries_are_set_operations index [first, second]).right.right hread with
    ⟨all, any, hothers⟩
  exact ⟨hread, hsame, all, any, hothers _ hsame⟩

end Index

end PostingIndex
