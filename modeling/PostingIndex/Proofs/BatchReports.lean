import Mathlib.Data.Set.Card
import PostingIndex.Proofs.Mirroring

/-!
# What a batch reports

A batch names the entities that it updated and the number of counts that it asked
for.  Where an index shows what the headers of a book say, and every change starts
from the header in the book, a batch asks for a count exactly where it changes
one.  So its report names everything that differs afterwards, and nothing else.

## Contents

The accounts of a batch, the cells that it asks for, batches that edit a book,
and what a report says.
-/

namespace PostingIndex

open GameChange

theorem encard_setOf_mem {α : Type _} {items : List α} (h : items.Nodup) :
    {item | item ∈ items}.encard = items.length := by
  classical
  rw [← List.coe_toFinset, Set.encard_coe_eq_coe_finsetCard, List.toFinset_card_of_nodup h]

/-!
## Accounts
-/

def EntityUpdate.request (update : EntityUpdate) : Entity × Nat :=
  (update.entity, update.changes)

namespace Index

theorem request_of_update {index : Index} {entity : Entity} {changes : Changes}
    {result : Updated} (h : index.update entity changes = .ok result) :
    result.update.request = (entity, changes.size) := by
  rcases update_eq_ok.mp h with ⟨_, _, _, heq⟩
  rw [heq]
  rfl

theorem map_request_runUpdates {run : BatchRun} {entries : List (Entity × Changes)}
    (hstop : (runUpdates run entries).stop = none) :
    (runUpdates run entries).updates.map EntityUpdate.request =
      (entries.map fun entry => (entry.1, entry.2.size)).reverse ++
        run.updates.map EntityUpdate.request := by
  induction entries generalizing run with
  | nil =>
      rfl
  | cons entry rest ih =>
      rcases entry with ⟨entity, changes⟩
      rw [runUpdates] at hstop ⊢
      cases hupdate : run.index.update entity changes with
      | error error =>
          rw [hupdate] at hstop
          cases hstop
      | ok result =>
          rw [hupdate] at hstop
          simp only [ih hstop, List.map_cons, request_of_update hupdate, List.reverse_cons,
            List.append_assoc, List.singleton_append]

section Accounts

variable {index : Index} {batch : List GameChange} {changes : EntityChanges}

theorem map_request_report (hcollect : EntityChanges.ofBatch batch = .ok changes)
    (hstop : (index.apply batch).stop = none) :
    (index.apply batch).report.map EntityUpdate.request =
      changes.toList.map fun entry => (entry.1, entry.2.size) := by
  cases hprepare : index.prepare batch with
  | error error =>
      rw [apply_of_prepare_error hprepare] at hstop
      cases hstop
  | ok found =>
      have hfound := (prepare_eq_ok.mp hprepare).left
      rw [hcollect] at hfound
      cases hfound
      rw [apply_of_prepare_ok hprepare] at hstop ⊢
      rw [BatchRun.report, List.map_reverse, map_request_runUpdates hstop]
      simp

theorem updated_eq_keys (hcollect : EntityChanges.ofBatch batch = .ok changes)
    (hstop : (index.apply batch).stop = none) :
    (index.apply batch).updated = changes.keys := by
  have hreport := congrArg (List.map Prod.fst) (map_request_report hcollect hstop)
  rw [List.map_map, List.map_map] at hreport
  exact hreport.trans Std.TreeMap.map_fst_toList_eq_keys

theorem exists_entry_of_report (hcollect : EntityChanges.ofBatch batch = .ok changes)
    (hstop : (index.apply batch).stop = none) {update : EntityUpdate}
    (hmem : update ∈ (index.apply batch).report) :
    ∃ entry ∈ changes.toList, entry.1 = update.entity ∧ entry.2.size = update.changes := by
  have hrequest := List.mem_map_of_mem (f := EntityUpdate.request) hmem
  rw [map_request_report hcollect hstop] at hrequest
  rcases List.mem_map.mp hrequest with ⟨entry, hentry, heq⟩
  exact ⟨entry, hentry, congrArg Prod.fst heq, congrArg Prod.snd heq⟩

theorem postingsChanged_eq_sum (hcollect : EntityChanges.ofBatch batch = .ok changes)
    (hstop : (index.apply batch).stop = none) :
    (index.apply batch).postingsChanged =
      (changes.toList.map fun entry => entry.2.size).sum := by
  have hreport := congrArg (List.map Prod.snd) (map_request_report hcollect hstop)
  rw [List.map_map, List.map_map] at hreport
  exact congrArg List.sum hreport

end Accounts

end Index

/-!
## The cells that a batch asks for
-/

namespace EntityChanges

def cells (changes : EntityChanges) : List (Entity × GameId) :=
  changes.toList.flatMap fun entry => entry.2.keys.map fun game => (entry.1, game)

theorem mem_keys_iff_asked? {changes : EntityChanges} {entry : Entity × Changes}
    (hmem : entry ∈ changes.toList) {game : GameId} :
    game ∈ entry.2.keys ↔ changes.asked? entry.1 game ≠ none := by
  have hget := Std.TreeMap.mem_toList_iff_getElem?_eq_some.mp hmem
  rw [asked?, Std.TreeMap.getD_eq_getD_getElem?, hget, Option.getD_some, Std.TreeMap.mem_keys,
    Std.TreeMap.mem_iff_isSome_getElem?, Option.isSome_iff_ne_none]

theorem exists_mem_toList_of_asked? {changes : EntityChanges} {entity : Entity} {game : GameId}
    (h : changes.asked? entity game ≠ none) : ∃ games, (entity, games) ∈ changes.toList := by
  cases hget : changes[entity]? with
  | none =>
      rw [asked?, Std.TreeMap.getD_eq_getD_getElem?, hget] at h
      simp at h
  | some games =>
      exact ⟨games, Std.TreeMap.mem_toList_iff_getElem?_eq_some.mpr hget⟩

theorem mem_keys_of_asked? {changes : EntityChanges} {entity : Entity} {game : GameId}
    (h : changes.asked? entity game ≠ none) : entity ∈ changes.keys := by
  rcases exists_mem_toList_of_asked? h with ⟨games, hentry⟩
  rw [← Std.TreeMap.map_fst_toList_eq_keys]
  exact List.mem_map_of_mem hentry

theorem mem_cells {changes : EntityChanges} {cell : Entity × GameId} :
    cell ∈ changes.cells ↔ changes.asked? cell.1 cell.2 ≠ none := by
  rw [cells, List.mem_flatMap]
  constructor
  · rintro ⟨entry, hentry, hcell⟩
    rcases List.mem_map.mp hcell with ⟨game, hgame, heq⟩
    subst heq
    exact (mem_keys_iff_asked? hentry).mp hgame
  · intro hasked
    rcases exists_mem_toList_of_asked? hasked with ⟨games, hentry⟩
    exact ⟨_, hentry, List.mem_map.mpr ⟨cell.2, (mem_keys_iff_asked? hentry).mpr hasked, rfl⟩⟩

theorem nodup_cells (changes : EntityChanges) : changes.cells.Nodup := by
  rw [cells, List.nodup_flatMap]
  constructor
  · intro entry _
    exact Std.TreeMap.nodup_keys.map fun left right heq => congrArg Prod.snd heq
  · have hkeys := Index.nodup_keys changes
    rw [← Std.TreeMap.map_fst_toList_eq_keys] at hkeys
    apply (List.pairwise_map.mp hkeys).imp
    intro left right hne cell hleft hright
    rcases List.mem_map.mp hleft with ⟨_, _, heq⟩
    rcases List.mem_map.mp hright with ⟨_, _, heq'⟩
    exact hne ((congrArg Prod.fst heq).trans (congrArg Prod.fst heq').symm)

theorem length_cells (changes : EntityChanges) :
    changes.cells.length = (changes.toList.map fun entry => entry.2.size).sum := by
  simp only [cells, List.length_flatMap, List.length_map, Std.TreeMap.length_keys]

end EntityChanges

namespace GameChange

/-!
## One change for each game
-/

theorem lastRequest?_cons (change : GameChange) (rest : List GameChange) (entity : Entity)
    (game : GameId) :
    lastRequest? (change :: rest) entity game =
      (lastRequest? rest entity game).or (change.request? entity game) := by
  rw [lastRequest?, List.foldl_cons, Option.or_none, foldl_request?]

theorem lastRequest?_of_not_mem {batch : List GameChange} {entity : Entity} {game : GameId}
    (h : game ∉ batch.map GameChange.game) : lastRequest? batch entity game = none := by
  induction batch with
  | nil =>
      rfl
  | cons change rest ih =>
      rw [List.map_cons, List.mem_cons, not_or] at h
      rw [lastRequest?_cons, ih h.right, request?, if_neg (Ne.symm h.left)]
      rfl

theorem lastRequest?_of_mem {batch : List GameChange}
    (hdistinct : (batch.map GameChange.game).Nodup) {change : GameChange}
    (hmem : change ∈ batch) (entity : Entity) :
    lastRequest? batch entity change.game = change.newCount? entity := by
  induction batch with
  | nil =>
      cases hmem
  | cons first rest ih =>
      rcases List.nodup_cons.mp hdistinct with ⟨hfirst, hrest⟩
      rw [lastRequest?_cons]
      rcases List.mem_cons.mp hmem with heq | hmem
      · subst heq
        rw [lastRequest?_of_not_mem hfirst, request?, if_pos rfl]
        rfl
      · have hne : first.game ≠ change.game := fun heq =>
          hfirst (heq ▸ List.mem_map_of_mem hmem)
        rw [ih hrest hmem, request?, if_neg hne, Option.or_none]

theorem mem_keys_iff_exists_asked? {batch : List GameChange} {changes : EntityChanges}
    (hcollect : EntityChanges.ofBatch batch = .ok changes)
    (hdistinct : (batch.map GameChange.game).Nodup) {entity : Entity} :
    entity ∈ changes.keys ↔ ∃ game, changes.asked? entity game ≠ none := by
  constructor
  · intro hmem
    rcases (EntityChanges.mem_keys_ofBatch hcollect).mp hmem with ⟨change, hchange, hcounts⟩
    refine ⟨change.game, ?_⟩
    rw [EntityChanges.asked?_ofBatch hcollect, lastRequest?_of_mem hdistinct hchange]
    exact newCount?_ne_none.mpr hcounts
  · rintro ⟨game, hasked⟩
    exact EntityChanges.mem_keys_of_asked? hasked

end GameChange

/-- A batch changes each of its games once, from the header that the book has. -/
structure GameBook.Edits (book : GameBook) (batch : List GameChange) : Prop where
  distinct : (batch.map GameChange.game).Nodup
  current : ∀ change ∈ batch, change.old = book[change.game]?

namespace GameBook

theorem getElem?_recordAll_of_not_mem {book : GameBook} {batch : List GameChange}
    {game : GameId} (h : game ∉ batch.map GameChange.game) :
    (book.recordAll batch)[game]? = book[game]? := by
  induction batch generalizing book with
  | nil =>
      rfl
  | cons change rest ih =>
      rw [List.map_cons, List.mem_cons, not_or] at h
      have hrest : ((book.record change).recordAll rest)[game]? = (book.record change)[game]? :=
        ih h.right
      rw [getElem?_record, if_neg (Ne.symm h.left)] at hrest
      exact hrest

theorem getElem?_recordAll_of_mem {book : GameBook} {batch : List GameChange}
    (hdistinct : (batch.map GameChange.game).Nodup) {change : GameChange}
    (hmem : change ∈ batch) : (book.recordAll batch)[change.game]? = change.new := by
  induction batch generalizing book with
  | nil =>
      cases hmem
  | cons first rest ih =>
      rcases List.nodup_cons.mp hdistinct with ⟨hfirst, hrest⟩
      rcases List.mem_cons.mp hmem with heq | hmem
      · subst heq
        have hkept : ((book.record change).recordAll rest)[change.game]? =
            (book.record change)[change.game]? := getElem?_recordAll_of_not_mem hfirst
        rw [getElem?_record, if_pos rfl] at hkept
        exact hkept
      · exact ih hrest hmem

/-- A batch that edits a book asks for the numbers that the book changes. -/
theorem Edits.lastRequest?_ne_none {book : GameBook} {batch : List GameChange}
    (h : book.Edits batch) {entity : Entity} {game : GameId} :
    lastRequest? batch entity game ≠ none ↔
      timesOf (book.recordAll batch)[game]? entity ≠ timesOf book[game]? entity := by
  by_cases hin : game ∈ batch.map GameChange.game
  · rcases List.mem_map.mp hin with ⟨change, hmem, hgame⟩
    subst hgame
    rw [lastRequest?_of_mem h.distinct hmem, newCount?_ne_none,
      getElem?_recordAll_of_mem h.distinct hmem, ← h.current change hmem, ne_comm]
  · rw [lastRequest?_of_not_mem hin, getElem?_recordAll_of_not_mem hin]
    simp

end GameBook

theorem GameBook.Edits.settle_lastRequest?_ne {book : GameBook} {batch : List GameChange}
    (h : book.Edits batch) (hcountable : ∀ change ∈ batch, ¬ change.Uncountable)
    {entity : Entity} {game : GameId} {before : Option UInt32}
    (hbefore : numberOf before = timesOf book[game]? entity)
    (hasked : lastRequest? batch entity game ≠ none) :
    settle before (lastRequest? batch entity game) ≠ before := by
  have hin : game ∈ batch.map GameChange.game := by
    by_contra hnot
    exact hasked (lastRequest?_of_not_mem hnot)
  rcases List.mem_map.mp hin with ⟨change, hmem, hgame⟩
  subst hgame
  rw [lastRequest?_of_mem h.distinct hmem] at hasked ⊢
  rw [← h.current change hmem] at hbefore
  have hafter := GameBook.numberOf_settle_newCount? (hcountable change hmem) hbefore
  intro hsame
  rw [hsame, hbefore] at hafter
  exact newCount?_ne_none.mp hasked hafter

namespace Index

variable {index : Index} {layout : Layout} {batch : List GameChange}
  {changes : EntityChanges}

/-!
## What differs
-/

def countOf (index : Index) (entity : Entity) (game : GameId) :
    Except IndexError (Option UInt32) :=
  (index.postings entity).map fun postings => Posting.countIn? postings game

theorem Laid.countOf_of_mem (h : index.Laid layout) {entity : Entity}
    (hmem : entity.type ∈ index.heads.types) (game : GameId) :
    index.countOf entity game = .ok (index.count? entity game) := by
  rw [countOf, h.postings_eq hmem, h.count?_eq]
  rfl

theorem postings_of_not_mem {entity : Entity} (hmem : entity.type ∉ index.heads.types) :
    index.postings entity = .error (.unknownType entity.type) := by
  rw [postings, index.chain_of_not_mem hmem]
  rfl

theorem postings_ne_iff {left right : Index} (hleft : left.verify = .ok ())
    (hright : right.verify = .ok ()) (htypes : left.heads.types = right.heads.types)
    {entity : Entity} :
    left.postings entity ≠ right.postings entity ↔
      ∃ game, left.countOf entity game ≠ right.countOf entity game := by
  constructor
  · intro hne
    by_contra hsame
    push Not at hsame
    by_cases hmem : entity.type ∈ right.heads.types
    · apply hne
      apply postings_congr hleft hright htypes
      intro game
      have hgame := hsame game
      rw [(verify_eq_ok.mp hleft).countOf_of_mem (htypes ▸ hmem),
        (verify_eq_ok.mp hright).countOf_of_mem hmem] at hgame
      exact Except.ok.inj hgame
    · exact hne ((postings_of_not_mem (htypes ▸ hmem)).trans (postings_of_not_mem hmem).symm)
  · rintro ⟨game, hdiffer⟩ hsame
    exact hdiffer (by rw [countOf, countOf, hsame])

theorem Laid.type_mem_of_asked? (h : index.Laid layout)
    (hcollect : EntityChanges.ofBatch batch = .ok changes)
    (hstop : (index.apply batch).stop = none) {entity : Entity} {game : GameId}
    (hasked : changes.asked? entity game ≠ none) : entity.type ∈ index.heads.types := by
  have htouched : Touched batch entity :=
    (EntityChanges.mem_keys_ofBatch hcollect).mp (EntityChanges.mem_keys_of_asked? hasked)
  exact ((h.takesPart_of_stop_eq_none hstop).right entity htouched).follows.left

/-- A batch that edits a book changes exactly the counts that it asks for. -/
theorem Addressed.countOf_apply_ne_iff {book : GameBook} (h : index.Addressed layout)
    (hshows : ∀ entity, entity.type ∈ index.heads.types ->
      (index.postings entity).map Posting.perGame = .ok (book.perGame entity))
    (hedits : book.Edits batch) (hcollect : EntityChanges.ofBatch batch = .ok changes)
    (hstop : (index.apply batch).stop = none) (entity : Entity) (game : GameId) :
    (index.apply batch).index.countOf entity game ≠ index.countOf entity game ↔
      changes.asked? entity game ≠ none := by
  have habsorbs := h.absorbs_apply (result_eq_ok.mpr ⟨hstop, rfl⟩)
  rcases habsorbs.addressed with ⟨_, hafter⟩
  by_cases hmem : entity.type ∈ index.heads.types
  · have hbefore : numberOf (index.count? entity game) = timesOf book[game]? entity := by
      have hperGame := hshows entity hmem
      rw [h.postings_eq hmem] at hperGame
      have hordered := (h.sound entity.slot).ordered
      have hcounts := (GameBook.perGame_eq_iff hordered).mp (Except.ok.inj hperGame)
      rw [h.count?_eq]
      exact hcounts game
    rw [hafter.countOf_of_mem (habsorbs.types ▸ hmem), h.countOf_of_mem hmem, habsorbs.counts,
      EntityChanges.asked?_ofBatch hcollect, Ne, Except.ok.injEq]
    constructor
    · intro hdiffer hnone
      exact hdiffer (by rw [hnone]; rfl)
    · exact hedits.settle_lastRequest?_ne (h.takesPart_of_stop_eq_none hstop).left hbefore
  · have hsame : (index.apply batch).index.countOf entity game = index.countOf entity game := by
      rw [countOf, countOf, postings_of_not_mem hmem,
        postings_of_not_mem (habsorbs.types ▸ hmem)]
    have hnone : changes.asked? entity game = none := by
      by_contra hasked
      exact hmem (h.type_mem_of_asked? hcollect hstop hasked)
    simp [hsame, hnone]

/-!
## The report
-/

/-- A report names the entities whose lists differ, and counts the counts that do. -/
structure BatchRun.Reports (run : BatchRun) (listDiffers : Entity -> Prop)
    (countDiffers : Entity -> GameId -> Prop) : Prop where
  ascending : run.updated.Pairwise fun left right => Entity.order left right = .lt
  updated : ∀ entity, entity ∈ run.updated ↔ listDiffers entity
  each : ∀ update ∈ run.report,
    {game | countDiffers update.entity game}.encard = update.changes
  postingsChanged :
    {cell : Entity × GameId | countDiffers cell.1 cell.2}.encard = run.postingsChanged

/-- A report of what the headers of a book say otherwise than they did. -/
def BatchRun.ReportsBook (run : BatchRun) (before after : GameBook) : Prop :=
  run.Reports (fun entity => after.perGame entity ≠ before.perGame entity)
    fun entity game => timesOf after[game]? entity ≠ timesOf before[game]? entity

/-- A report of what an index shows otherwise than before. -/
def BatchRun.ReportsIndex (run : BatchRun) (before : Index) : Prop :=
  run.Reports (fun entity => run.index.postings entity ≠ before.postings entity)
    fun entity game => run.index.countOf entity game ≠ before.countOf entity game

theorem reports_apply (hcollect : EntityChanges.ofBatch batch = .ok changes)
    (hdistinct : (batch.map GameChange.game).Nodup) (hstop : (index.apply batch).stop = none)
    {listDiffers : Entity -> Prop} {countDiffers : Entity -> GameId -> Prop}
    (hcounts : ∀ entity game,
      countDiffers entity game ↔ changes.asked? entity game ≠ none)
    (hlists : ∀ entity, listDiffers entity ↔ ∃ game, countDiffers entity game) :
    (index.apply batch).Reports listDiffers countDiffers := by
  constructor
  · rw [updated_eq_keys hcollect hstop]
    exact ordered_keys _
  · intro entity
    rw [updated_eq_keys hcollect hstop, hlists]
    simp only [hcounts]
    exact mem_keys_iff_exists_asked? hcollect hdistinct
  · intro update hmem
    rcases exists_entry_of_report hcollect hstop hmem with ⟨entry, hentry, hentity, hsize⟩
    simp only [hcounts, ← hentity, ← EntityChanges.mem_keys_iff_asked? hentry]
    rw [encard_setOf_mem Std.TreeMap.nodup_keys, Std.TreeMap.length_keys, hsize]
  · simp only [hcounts, ← EntityChanges.mem_cells]
    rw [encard_setOf_mem (EntityChanges.nodup_cells _), EntityChanges.length_cells,
      postingsChanged_eq_sum hcollect hstop]

/--
An audited index shows what the headers of a book say, and a batch succeeds on it that
changes each of its games once, from the header in the book.  Then the report names the
entities and counts the games of which the headers say something else afterwards.  Where
links of 32 bits reach all of the arena, it names the entities whose lists differ, and
counts the counts that do.
-/
theorem report_names_differences {book : GameBook} (hverify : index.verify = .ok ())
    (hshows : ∀ entity, entity.type ∈ index.heads.types ->
      (index.postings entity).map Posting.perGame = .ok (book.perGame entity))
    (hedits : book.Edits batch) (hstop : (index.apply batch).stop = none) :
    (index.apply batch).ReportsBook book (book.recordAll batch) ∧
      (index.arena.size < 2 ^ 32 -> (index.apply batch).ReportsIndex index) := by
  rcases allMade_apply hstop with ⟨changes, hcollect, _⟩
  constructor
  · apply reports_apply hcollect hedits.distinct hstop
    · intro entity game
      rw [EntityChanges.asked?_ofBatch hcollect, hedits.lastRequest?_ne_none]
    · intro entity
      rw [Ne, GameBook.perGame_eq_perGame_iff, not_forall]
  · intro hsize
    have h := addressed_of_verify hverify hsize
    have hdiffer := h.countOf_apply_ne_iff hshows hedits hcollect hstop
    have habsorbs := h.absorbs_apply (result_eq_ok.mpr ⟨hstop, rfl⟩)
    rcases habsorbs.addressed with ⟨_, hafter⟩
    apply reports_apply hcollect hedits.distinct hstop hdiffer
    intro entity
    exact postings_ne_iff hafter.verify hverify habsorbs.types

/--
One game swaps its second player for a new one, who joins the other game in the
place of the first one; the tag of that game stays as it is.
-/
theorem report_names_differences_players :
    let first : GameHeader := { white := some 0, black := some 1 }
    let second : GameHeader := { white := some 0, black := some 0, tags := [0, 0] }
    let batch : List GameChange := [
      { game := 4, old := some first, new := some { white := some 0, black := some 2 } },
      { game := 7, old := some second,
        new := some { white := some 0, black := some 1, tags := [0, 0] } }]
    ∃ games : IndexedGames, games.index.verify = .ok () ∧ games.index.arena.size < 2 ^ 32 ∧
      (∀ entity, entity.type ∈ games.index.heads.types ->
        (games.index.postings entity).map Posting.perGame = .ok (games.book.perGame entity)) ∧
      games.book.Edits batch ∧ (games.index.apply batch).stop = none ∧
      (games.index.apply batch).updated =
        [{ type := .player, id := 0 }, { type := .player, id := 1 },
          { type := .player, id := 2 }] ∧
      (games.index.apply batch).postingsChanged = 4 ∧
      (games.index.apply batch).ReportsBook games.book (games.book.recordAll batch) ∧
      (games.index.apply batch).ReportsIndex games.index := by
  intro first second batch
  let start : Index :=
    { capacity := 1
      pool := Pool.empty
      heads := HeadTable.ofTypes [.player, .gameTag]
      arena := Arena.empty
      usable := by decide }
  let added : List GameChange :=
    [{ game := 7, new := some second }, { game := 4, new := some first }]
  have hstart : new { types := [.player, .gameTag], capacity := 1 } = .ok start := rfl
  have hgames : ∃ games : IndexedGames, IndexedGames.Mirrors [.player, .gameTag] games ∧
      games.book.Edits batch ∧ (games.index.apply batch).stop = none ∧
      (games.index.apply batch).updated =
        [{ type := .player, id := 0 }, { type := .player, id := 1 },
          { type := .player, id := 2 }] ∧
      (games.index.apply batch).postingsChanged = 4 :=
    ⟨IndexedGames.step { index := start, book := ∅ } added,
      (IndexedGames.mirrors_new hstart).step (by decide +kernel) (by decide +kernel),
      ⟨by decide, by decide +kernel⟩, by decide +kernel, by decide +kernel, by decide +kernel⟩
  -- The rest holds of any batch with these properties, so its text stays folded.
  clear_value batch
  rcases hgames with ⟨games, hmirrors, hedits, hstop, hupdated, hchanged⟩
  rcases hmirrors.addressed with ⟨layout, haddressed⟩
  have hverify := haddressed.verify
  have hsize := haddressed.addressed
  have hshows : ∀ entity, entity.type ∈ games.index.heads.types ->
      (games.index.postings entity).map Posting.perGame = .ok (games.book.perGame entity) :=
    fun entity hmem => hmirrors.postings_eq (hmirrors.types ▸ hmem)
  have hreports := report_names_differences hverify hshows hedits hstop
  exact ⟨games, hverify, hsize, hshows, hedits, hstop, hupdated, hchanged,
    hreports.left, hreports.right hsize⟩

end Index

end PostingIndex
