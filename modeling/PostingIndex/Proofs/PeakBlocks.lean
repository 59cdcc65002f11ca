import PostingIndex.Proofs.Soundness
import PostingIndex.Proofs.Storing

/-!
# Block numbers and the peak of blocks in use

An update first uses the numbers that its chain gives up, then free ones, and
only then new ones.  So the count of numbers handed out is never more than was
needed: after every update it is the larger one of the count before and the
blocks in use, and along a run it is the peak of blocks in use.

## Contents

The numbers of a pool that are in use, the count after one update, the indexes that a
run passes through with their peak of blocks in use, and the count along a run.
-/

namespace PostingIndex

def Pool.inUse (pool : Pool) : Nat :=
  pool.numBlocks.toNat - pool.free.size

namespace Index

/-!
## One update
-/

section Update

variable {index : Index} {entity : Entity} {changes : Changes} {result : Updated}

/-- An update takes numbers from the pool or gives some back, but not both. -/
theorem frugal_of_update (h : index.update entity changes = .ok result) :
    result.update.allocated = 0 ∨ result.update.freed = 0 := by
  rcases update_eq_ok.mp h with ⟨chain, packing, hrepacks, haccount⟩
  rw [haccount]
  rcases (packs_repack hrepacks.packed).frugal with hnone | hnone
  · exact Or.inl (List.length_eq_zero_iff.mpr hnone)
  · exact Or.inr (List.length_eq_zero_iff.mpr hnone)

theorem numBlocks_update (h : index.update entity changes = .ok result) :
    result.index.pool.numBlocks.toNat =
      max index.pool.numBlocks.toNat result.index.pool.inUse := by
  rcases update_eq_ok.mp h with ⟨chain, packing, hrepacks, _⟩
  have hdrawn := drawn_repack hrepacks.packed
  have hcount := hdrawn.count
  have hfree := hdrawn.freeSize
  rw [List.length_reverse] at hcount hfree
  have hpool := (install_eq_ok.mp hrepacks.installed).right.right.left
  rw [Pool.inUse, hpool]
  show packing.pool.numBlocks.toNat = max index.pool.numBlocks.toNat
    (packing.pool.numBlocks.toNat -
      (packing.freed.foldl IdSet.insert packing.pool.free).size)
  rcases (packs_repack hrepacks.packed).frugal with hnone | hnone
  · rw [hnone, List.length_nil] at hcount
    omega
  · rw [hnone, List.foldl_nil]
    omega

theorem Laid.liveBlocks_update {layout : Layout} (h : index.Laid layout)
    (hupdate : index.update entity changes = .ok result) :
    result.index.pool.liveBlocks = .ok result.index.pool.inUse := by
  rcases h.repacks hupdate with ⟨packing, hrepacks, _⟩
  exact Pool.liveBlocks_eq_ok (h.freeWithin_install hrepacks.packed hrepacks.installed)

end Update

/-!
## Runs
-/

/-- The indexes after each of several calls, up to the first call that fails. -/
def passedBy (index : Index) : List Call -> List Index
  | [] => []
  | request :: rest =>
      match index.update request.entity request.changes with
      | .ok result => result.index :: passedBy result.index rest
      | .error _ => []

/-- The indexes after each single update of a step. -/
def passedIn (index : Index) : Step -> List Index
  | .update request => index.passedBy [request]
  | .batch batch =>
      match index.prepare batch with
      | .ok changes => index.passedBy changes.calls
      | .error _ => []
  | .reload _ _ => []

def passedAlong (index : Index) : List Step -> List Index
  | [] => []
  | step :: rest => index.passedIn step ++ passedAlong (index.step step) rest

/-- The greatest number of blocks that any of several indexes has in use. -/
def peakLive (passed : List Index) : Nat :=
  (passed.map fun index => index.pool.inUse).foldr max 0

@[simp]
theorem peakLive_nil : peakLive [] = 0 :=
  rfl

@[simp]
theorem peakLive_cons (index : Index) (rest : List Index) :
    peakLive (index :: rest) = max index.pool.inUse (peakLive rest) :=
  rfl

theorem peakLive_append (left right : List Index) :
    peakLive (left ++ right) = max (peakLive left) (peakLive right) := by
  induction left with
  | nil =>
      simp
  | cons index rest ih =>
      rw [List.cons_append, peakLive_cons, peakLive_cons, ih, Nat.max_assoc]

section Passed

variable {property : Index -> Prop} {index passed : Index}

theorem UpdatesKeep.passedBy (hkeep : UpdatesKeep property) {requests : List Call}
    (h : property index) (hpassed : passed ∈ index.passedBy requests) : property passed := by
  induction requests generalizing index with
  | nil =>
      cases hpassed
  | cons request rest ih =>
      rw [Index.passedBy] at hpassed
      cases hupdate : index.update request.entity request.changes with
      | error error =>
          rw [hupdate] at hpassed
          cases hpassed
      | ok result =>
          rw [hupdate] at hpassed
          have hnext := hkeep h hupdate
          rcases List.mem_cons.mp hpassed with hfirst | hrest
          · exact hfirst ▸ hnext
          · exact ih hnext hrest

theorem UpdatesKeep.passedIn (hkeep : UpdatesKeep property) {step : Step}
    (h : property index) (hpassed : passed ∈ index.passedIn step) : property passed := by
  cases step with
  | update request =>
      exact hkeep.passedBy h hpassed
  | batch batch =>
      rw [Index.passedIn] at hpassed
      cases hprepare : index.prepare batch with
      | error error =>
          rw [hprepare] at hpassed
          cases hpassed
      | ok changes =>
          rw [hprepare] at hpassed
          exact hkeep.passedBy h hpassed
  | reload pack createdAt =>
      cases hpassed

theorem Lasting.passedAlong (hlasting : Lasting property) {row : List Step}
    (h : property index) (hpassed : passed ∈ index.passedAlong row) : property passed := by
  induction row generalizing index with
  | nil =>
      cases hpassed
  | cons step rest ih =>
      rcases List.mem_append.mp hpassed with hfirst | hrest
      · exact hlasting.update.passedIn h hfirst
      · exact ih (hlasting.step h step) hrest

end Passed

theorem numBlocks_runUpdates (run : BatchRun) (entries : List (Entity × Changes)) :
    (runUpdates run entries).index.pool.numBlocks.toNat =
      max run.index.pool.numBlocks.toNat (peakLive (run.index.passedBy
        (entries.map fun entry => { entity := entry.1, changes := entry.2 }))) := by
  induction entries generalizing run with
  | nil =>
      simp [runUpdates, passedBy]
  | cons entry rest ih =>
      rcases entry with ⟨entity, changes⟩
      rw [List.map_cons, passedBy]
      cases hupdate : run.index.update entity changes with
      | error error =>
          simp [runUpdates, hupdate]
      | ok result =>
          rw [runUpdates, hupdate, ih, peakLive_cons, numBlocks_update hupdate, Nat.max_assoc]

namespace Storable

variable {index : Index}

theorem numBlocks_step (h : index.Storable) {step : Step} (hunpack : index.Unpacks step) :
    (index.step step).pool.numBlocks.toNat =
      max index.pool.numBlocks.toNat (peakLive (index.passedIn step)) := by
  cases step with
  | update request =>
      rw [Index.step, Index.call, passedIn, passedBy]
      cases hupdate : index.update request.entity request.changes with
      | error error =>
          simp
      | ok result =>
          simpa [passedBy] using numBlocks_update hupdate
  | batch batch =>
      rw [Index.step, passedIn]
      cases hprepare : index.prepare batch with
      | error error =>
          simp [apply_of_prepare_error hprepare]
      | ok changes =>
          rw [apply_of_prepare_ok hprepare]
          exact numBlocks_runUpdates { index } changes.toList
  | reload pack createdAt =>
      rw [h.step_reload hunpack createdAt]
      simp [passedIn]

theorem numBlocks_steps (h : index.Storable) {row : List Step}
    (hunpack : AllUnpack index row) :
    (index.steps row).pool.numBlocks.toNat =
      max index.pool.numBlocks.toNat (peakLive (index.passedAlong row)) := by
  induction row generalizing index with
  | nil =>
      simp [Index.steps, passedAlong]
  | cons step rest ih =>
      have hrest := ih (lasting_storable.step h step) hunpack.right
      rw [passedAlong, peakLive_append, ← Nat.max_assoc, ← h.numBlocks_step hunpack.left]
      exact hrest

end Storable

/--
After an update of an audited index, as many numbers were handed out as before or
as blocks are in use, whichever is more.  Along a run of a new index, the count is
the peak of blocks in use after any single update, and it never falls.  No update
both takes numbers from the pool and gives some back.
-/
theorem numBlocks_eq_peakLive :
    (∀ (index : Index) (entity : Entity) (changes : Changes) (result : Updated),
      index.verify = .ok () -> index.update entity changes = .ok result ->
        ∃ live, result.index.pool.liveBlocks = .ok live ∧
          result.index.pool.numBlocks.toNat = max index.pool.numBlocks.toNat live) ∧
    (∀ config start row, new config = .ok start -> AllUnpack start row ->
      (∀ passed ∈ start.passedAlong row,
        passed.pool.liveBlocks = .ok passed.pool.inUse) ∧
      (start.steps row).pool.numBlocks.toNat = peakLive (start.passedAlong row) ∧
        ∀ next, (start.steps row).Unpacks next ->
          (start.steps row).pool.numBlocks ≤ ((start.steps row).step next).pool.numBlocks) ∧
    ∀ (index : Index) (entity : Entity) (changes : Changes) (result : Updated),
      index.update entity changes = .ok result ->
        result.update.allocated = 0 ∨ result.update.freed = 0 := by
  refine ⟨?_, ?_, fun _ _ _ _ => frugal_of_update⟩
  · intro index entity changes result hverify hupdate
    exact ⟨_, (laid_of_verify hverify).liveBlocks_update hupdate, numBlocks_update hupdate⟩
  · intro config start row hnew hunpack
    have hstart := storable_new hnew
    have hzero : start.pool.numBlocks.toNat = 0 := by
      rw [(new_eq_ok.mp hnew).right.left]
      rfl
    refine ⟨?_, ?_, ?_⟩
    · intro passed hpassed
      have hstorable := lasting_storable.passedAlong hstart hpassed
      exact Pool.liveBlocks_eq_ok hstorable.laid.freeWithin
    · rw [hstart.numBlocks_steps hunpack, hzero, Nat.zero_max]
    · intro next hnext
      rw [UInt32.le_iff_toNat_le,
        (lasting_storable.steps hstart row).numBlocks_step hnext]
      exact Nat.le_max_left _ _

/--
A player fills two blocks, a game that a second player comes with needs two more,
and the first player gives one back.
-/
theorem numBlocks_eq_peakLive_players :
    let introduced : Call :=
      { entity := { type := .player, id := 0 }, changes := Changes.ofList [(4, 1), (7, 2)] }
    let left : Call :=
      { entity := { type := .player, id := 0 }, changes := Changes.ofList [(4, 0)] }
    let row : List Step := [.update introduced,
      .batch [{ game := 9, new := some { white := some 0, black := some 1 } }]]
    ∃ start, new { types := [.player], capacity := 1 } = .ok start ∧
      AllUnpack start row ∧
      ((start.steps row).pool.numBlocks = 4 ∧ peakLive (start.passedAlong row) = 4) ∧
      (start.steps row).pool.numBlocks ≤
        ((start.steps row).step (.update left)).pool.numBlocks ∧
      ∃ result, start.update introduced.entity introduced.changes = .ok result ∧
        (∃ live, result.index.pool.liveBlocks = .ok live ∧
          result.index.pool.numBlocks.toNat = max start.pool.numBlocks.toNat live) ∧
        (result.update.allocated = 0 ∨ result.update.freed = 0) := by
  intro introduced left row
  let start : Index :=
    { capacity := 1
      pool := Pool.empty
      heads := HeadTable.ofTypes [.player]
      arena := Arena.empty
      usable := by decide }
  have hnew : new { types := [.player], capacity := 1 } = .ok start := rfl
  have hunpack : AllUnpack start row := by decide +kernel
  have hcount : (start.steps row).pool.numBlocks = 4 := by decide +kernel
  have hroom : start.demand [] introduced.changes ≤ start.pool.remaining := by decide +kernel
  have hcheck : start.heads.checkExtent introduced.entity = .ok () := rfl
  rcases (laid_new hnew).exists_update hcheck hroom with ⟨result, hupdate⟩
  rcases numBlocks_eq_peakLive with ⟨hone, hrun, hfrugal⟩
  rcases hrun _ start row hnew hunpack with ⟨_, hpeak, hrises⟩
  rw [hcount] at hpeak
  exact ⟨start, hnew, hunpack, ⟨hcount, hpeak.symm⟩, hrises _ trivial, result, hupdate,
    hone _ _ _ _ (verify_new hnew) hupdate, hfrugal _ _ _ _ hupdate⟩

end Index

end PostingIndex
