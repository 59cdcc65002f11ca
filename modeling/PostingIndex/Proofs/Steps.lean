import PostingIndex.Chain.ChangeList
import PostingIndex.File.Image
import PostingIndex.Game.Batch
import PostingIndex.Proofs.Answers
import PostingIndex.Proofs.Audit
import PostingIndex.Proofs.BatchRequests
import PostingIndex.Proofs.Calls
import PostingIndex.Proofs.FileReading

/-!
# Runs of an index

An index lives through single updates, batches of game changes and reloads from
a file.  Each of them may fail or be cut short by an abort.  On an index that
passes the audit no question finds a corrupt chain, and every step leads to an
index that passes again.

## Contents

Steps and rows of steps, batches whose numbers last, properties that outlast every
step, what an audited index answers, and the audit along a run.
-/

namespace PostingIndex

/-- A step in the life of an index. -/
inductive Step where
  | update (request : Call)
  | batch (changes : List GameChange)
  | reload (pack : List UInt8 -> List UInt8) (createdAt : UInt64)

def EntityChanges.calls (changes : EntityChanges) : List Call :=
  changes.toList.map fun entry => { entity := entry.1, changes := entry.2 }

namespace Index

/-- The index after a step; where a step fails, what it changed before stays. -/
def step (index : Index) : Step -> Index
  | .update request => index.call request
  | .batch changes => (index.apply changes).index
  | .reload pack createdAt =>
      (File.read (File.writeWith pack index createdAt)).toOption.getD index

def steps (index : Index) (row : List Step) : Index :=
  row.foldl step index

/-!
## Batches
-/

theorem apply_of_prepare_error {index : Index} {batch : List GameChange}
    {error : IndexError} (h : index.prepare batch = .error error) :
    index.apply batch = { index, stop := some error } := by
  rw [apply, h]

theorem apply_of_prepare_ok {index : Index} {batch : List GameChange}
    {changes : EntityChanges} (h : index.prepare batch = .ok changes) :
    index.apply batch = runUpdates { index } changes.toList := by
  rw [apply, h]

theorem prepare_eq_ok {index : Index} {batch : List GameChange} {changes : EntityChanges} :
    index.prepare batch = .ok changes ↔
      EntityChanges.ofBatch batch = .ok changes ∧
        index.checkExtents changes.keys = .ok () ∧
          index.checkChains changes.keys = .ok () := by
  rw [prepare, Outcome.bind_eq_ok]
  simp only [Outcome.bind_eq_ok, Outcome.pure_eq_ok]
  constructor
  · rintro ⟨found, hfound, _, hextents, _, hchains, rfl⟩
    exact ⟨hfound, hextents, hchains⟩
  · rintro ⟨hfound, hextents, hchains⟩
    exact ⟨changes, hfound, (), hextents, (), hchains, rfl⟩

theorem prepare_eq_error {index : Index} {batch : List GameChange} {error : IndexError} :
    index.prepare batch = .error error ↔
      EntityChanges.ofBatch batch = .error error ∨
        ∃ changes, EntityChanges.ofBatch batch = .ok changes ∧
          (index.checkExtents changes.keys = .error error ∨
            (index.checkExtents changes.keys = .ok () ∧
              index.checkChains changes.keys = .error error)) := by
  rw [prepare, Outcome.bind_eq_error]
  simp only [Outcome.check_bind_eq_error, Outcome.pure_ne_error, and_false, or_false]

/-- Where a batch passes its checks, numbers last along all of its updates. -/
def LastsThrough (index : Index) (batch : List GameChange) : Prop :=
  ∀ changes, index.prepare batch = .ok changes -> index.NumbersLast changes.calls

instance decidableLastsThrough (index : Index) (batch : List GameChange) :
    Decidable (index.LastsThrough batch) :=
  match hprepare : index.prepare batch with
  | .ok changes =>
      decidable_of_iff (index.NumbersLast changes.calls) (by simp [LastsThrough, hprepare])
  | .error _ => .isTrue (by simp [LastsThrough, hprepare])

/-!
## Properties that outlast every step
-/

/-- A property that every update keeps and that every index read from a file has. -/
structure Lasting (property : Index -> Prop) : Prop where
  update : UpdatesKeep property
  read : ∀ {file : FileBytes} {index : Index}, File.read file = .ok index -> property index

/-- What updates keep is kept by the updates of a batch, also by one that stops early. -/
theorem UpdatesKeep.runUpdates {property : Index -> Prop} (hkeep : UpdatesKeep property)
    {run : BatchRun} {entries : List (Entity × Changes)} (h : property run.index) :
    property (Index.runUpdates run entries).index := by
  induction entries generalizing run with
  | nil =>
      exact h
  | cons entry rest ih =>
      rcases entry with ⟨entity, changes⟩
      rw [Index.runUpdates]
      cases hupdate : run.index.update entity changes with
      | error error =>
          exact h
      | ok result =>
          exact ih (hkeep h hupdate)

theorem UpdatesKeep.apply {property : Index -> Prop} (hkeep : UpdatesKeep property)
    {index : Index} (h : property index) (batch : List GameChange) :
    property (index.apply batch).index := by
  cases hprepare : index.prepare batch with
  | error error =>
      rw [apply_of_prepare_error hprepare]
      exact h
  | ok changes =>
      rw [apply_of_prepare_ok hprepare]
      exact hkeep.runUpdates h

namespace Lasting

variable {property : Index -> Prop} {index : Index}

theorem step (hlasting : Lasting property) (h : property index) (step : Step) :
    property (index.step step) := by
  cases step with
  | update request =>
      exact hlasting.update.call h request
  | batch batch =>
      exact hlasting.update.apply h batch
  | reload pack createdAt =>
      rw [Index.step]
      cases hread : File.read (File.writeWith pack index createdAt) with
      | error error =>
          exact h
      | ok reloaded =>
          exact hlasting.read hread

theorem steps (hlasting : Lasting property) (h : property index) (row : List Step) :
    property (index.steps row) := by
  induction row generalizing index with
  | nil =>
      exact h
  | cons step rest ih =>
      exact ih (hlasting.step h step)

end Lasting

/-!
## Audited indexes
-/

theorem addressed_of_verify {index : Index} (hverify : index.verify = .ok ())
    (hsize : index.arena.size < 2 ^ 32) : index.Addressed index.readLayout :=
  { verify_eq_ok.mp hverify with addressed := hsize }

theorem Addressed.verify {index : Index} {layout : Layout} (h : index.Addressed layout) :
    index.verify = .ok () :=
  verify_of_laid h.toLaid

theorem addressed_of_read {file : FileBytes} {index : Index} (h : File.read file = .ok index) :
    index.Addressed index.readLayout := by
  rcases File.read_eq_ok.mp h with ⟨header, heads, pages, free, hreads⟩
  apply addressed_of_verify hreads.verified
  rw [hreads.arena, Arena.size, List.size_toArray, List.length_map,
    (File.parse_of_readPages hreads.readPages).left]
  exact hreads.small

theorem lasting_addressed : Lasting fun index => ∃ layout, index.Addressed layout where
  update := updatesKeep_addressed
  read h := ⟨_, addressed_of_read h⟩

theorem Addressed.refusal_of_runUpdates {layout : Layout} {run : BatchRun}
    {entries : List (Entity × Changes)} (h : run.index.Addressed layout)
    (hrun : run.stop = none) {error : IndexError}
    (hstop : (Index.runUpdates run entries).stop = some error) : error.Refusal := by
  induction entries generalizing run layout with
  | nil =>
      rw [Index.runUpdates, hrun] at hstop
      cases hstop
  | cons entry rest ih =>
      rcases entry with ⟨entity, changes⟩
      rw [Index.runUpdates] at hstop
      cases hupdate : run.index.update entity changes with
      | error failure =>
          rw [hupdate] at hstop
          cases hstop
          exact h.refusal_of_update hupdate
      | ok result =>
          rw [hupdate] at hstop
          rcases h.update hupdate with ⟨packing, _, _, hnext, _⟩
          let next : BatchRun :=
            { run with index := result.index, updates := result.update :: run.updates }
          have haddressed : next.index.Addressed _ := hnext
          exact ih haddressed hrun hstop

theorem Laid.refusal_of_prepare {index : Index} {layout : Layout} (h : index.Laid layout)
    {batch : List GameChange} {error : IndexError}
    (hprepare : index.prepare batch = .error error) : error.Refusal := by
  rcases prepare_eq_error.mp hprepare with hcollect | ⟨changes, _, hextents | ⟨_, hchains⟩⟩
  · exact Or.inr (Or.inr (EntityChanges.ofBatch_eq_error hcollect).right)
  · exact refusal_of_checkExtents hextents
  · exact h.refusal_of_checkChains hchains

/-- No request to an index finds a corrupt chain. -/
structure FindsNoCorruption (index : Index) : Prop where
  postings : ∀ entity id fault, index.postings entity ≠ .error (.corruptChain id fault)
  games : ∀ expand entity id fault,
    index.games expand entity ≠ .error (.corruptChain id fault)
  chainLength : ∀ entity id fault,
    index.chainLength entity ≠ .error (.corruptChain id fault)
  statistics : ∀ id fault, index.statistics ≠ .error (.corruptChain id fault)
  update : ∀ entity changes id fault,
    index.update entity changes ≠ .error (.corruptChain id fault)
  batch : ∀ batch id fault, (index.apply batch).stop ≠ some (.corruptChain id fault)

theorem Addressed.findsNoCorruption {index : Index} {layout : Layout}
    (h : index.Addressed layout) : index.FindsNoCorruption := by
  constructor
  · intro entity id fault herror
    exact (h.refusal_of_postings herror).ne_corruptChain id fault rfl
  · intro expand entity id fault herror
    exact (h.refusal_of_games herror).ne_corruptChain id fault rfl
  · intro entity id fault herror
    exact (h.refusal_of_chainLength herror).ne_corruptChain id fault rfl
  · intro id fault herror
    rcases h.exists_statistics with ⟨statistics, hstatistics⟩
    rw [hstatistics] at herror
    cases herror
  · intro entity changes id fault herror
    exact (h.refusal_of_update herror).ne_corruptChain id fault rfl
  · intro batch id fault hstop
    cases hprepare : index.prepare batch with
    | error error =>
        rw [apply_of_prepare_error hprepare] at hstop
        exact (h.refusal_of_prepare hprepare).ne_corruptChain id fault (Option.some.inj hstop)
    | ok changes =>
        rw [apply_of_prepare_ok hprepare] at hstop
        let start : BatchRun := { index }
        have hstart : start.index.Addressed layout := h
        exact (hstart.refusal_of_runUpdates rfl hstop).ne_corruptChain id fault rfl

/--
New indexes and indexes read from a file pass the audit.  An index that passes
it passes it after every row of steps, and no request to it then finds a corrupt
chain, as long as links of 32 bits reach all of its arena.
-/
theorem verify_along_runs :
    (∀ config index, new config = .ok index ->
      index.verify = .ok () ∧ index.arena.size < 2 ^ 32) ∧
    (∀ file index, File.read file = .ok index ->
      index.verify = .ok () ∧ index.arena.size < 2 ^ 32) ∧
    ∀ (index : Index) (row : List Step), index.verify = .ok () ->
      index.arena.size < 2 ^ 32 ->
      (index.steps row).verify = .ok () ∧ (index.steps row).FindsNoCorruption := by
  refine ⟨?_, ?_, ?_⟩
  · intro config index h
    exact ⟨(addressed_new h).verify, (addressed_new h).addressed⟩
  · intro file index h
    exact ⟨(addressed_of_read h).verify, (addressed_of_read h).addressed⟩
  · intro index row hverify hsize
    rcases lasting_addressed.steps ⟨_, addressed_of_verify hverify hsize⟩ row with
      ⟨layout, hnext⟩
    exact ⟨hnext.verify, hnext.findsNoCorruption⟩

/--
A player is introduced, a second one comes with a game of both, the index is
reloaded, and the first player leaves a game.
-/
theorem verify_along_player_run :
    let row : List Step := [
      .update
        { entity := { type := .player, id := 0 }
          changes := Changes.ofList [(4, 1), (7, 2)] },
      .batch [{ game := 9, new := some { white := some 0, black := some 1 } }],
      .reload Lz4.compress 0,
      .update
        { entity := { type := .player, id := 0 }
          changes := Changes.ofList [(4, 0)] }]
    ∃ index, new { types := [.player], capacity := 1 } = .ok index ∧
      index.verify = .ok () ∧ index.arena.size < 2 ^ 32 ∧
        (index.steps row).verify = .ok () ∧ (index.steps row).FindsNoCorruption := by
  intro row
  let first : Index :=
    { capacity := 1
      pool := Pool.empty
      heads := HeadTable.ofTypes [.player]
      arena := Arena.empty
      usable := by decide }
  have hnew : new { types := [.player], capacity := 1 } = .ok first := rfl
  rcases verify_along_runs.left _ _ hnew with ⟨hverify, hsize⟩
  exact ⟨first, hnew, hverify, hsize,
    verify_along_runs.right.right first row hverify hsize⟩

end Index

end PostingIndex
