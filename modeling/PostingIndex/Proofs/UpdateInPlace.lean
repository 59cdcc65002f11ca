import PostingIndex.Proofs.Isolation
import PostingIndex.Proofs.WalkEnds

/-!
# Updates in place

In memory an update changes the pool, the heads and the arena one after the other.
Every error that it returns was found before the first change.  The later steps can
still abort: where the pool has no number left, and where a block is given back whose
number was never handed out.  The second of these comes after a part of the changes.

## Contents

Steps on the parts of an index, what they come to, the update as a row of such steps,
and the conditions under which it fails.
-/

namespace PostingIndex

/-!
## Steps on the parts of an index
-/

structure Parts where
  pool : Pool
  heads : HeadTable
  arena : Arena
deriving DecidableEq

/-- Operations on the parts of an index.  One that fails keeps what it changed before. -/
abbrev InPlace :=
  ExceptT IndexError (StateM Parts)

namespace InPlace

def runOn (step : InPlace α) (parts : Parts) : Except IndexError α × Parts :=
  Id.run (StateT.run (ExceptT.run step) parts)

def attempt (outcome : Except IndexError α) : InPlace α :=
  ExceptT.mk (pure outcome)

def changeHeads (change : HeadTable -> Except IndexError HeadTable) : InPlace Unit := do
  let heads ← attempt (change (← get).heads)
  modify fun parts => { parts with heads }

def choose (state : Assignment) (run : Run) : InPlace Assignment := do
  let next ← attempt (state.choose run)
  modify fun parts => { parts with pool := next.pool }
  return next

def pack (capacity : Nat) (existing : List StoredBlock) (runs : List Run) :
    InPlace Packing := do
  let start : Assignment := { spare := Packing.spare capacity runs, pool := (← get).pool }
  let state ← (Packing.packed capacity runs).foldlM choose start
  return Packing.ofAssignment existing ((Packing.packed capacity runs).map Run.postings) state

def store (stored : StoredBlock) : InPlace Unit :=
  modify fun parts => { parts with arena := parts.arena.write stored.id stored.block }

def giveBack (id : BlockId) : InPlace Unit := do
  modify fun parts => { parts with arena := parts.arena.clear id }
  let pool ← attempt ((← get).pool.release id)
  modify fun parts => { parts with pool }

def readChain (capacity : Nat) (entity : Entity) : InPlace (List StoredBlock) := do
  let parts ← get
  attempt do
    parts.heads.checkExtent entity
    let head ← parts.heads.headOf entity
    parts.arena.source.chain capacity head

def repackChain (capacity : Nat) (entity : Entity) (changes : Changes)
    (chain : List StoredBlock) (runs : List Run) : InPlace EntityUpdate := do
  let packing ← pack capacity chain runs
  packing.writes.forM store
  packing.freed.forM giveBack
  changeHeads fun heads => heads.setHead entity packing.head
  return {
    entity
    changes := changes.size
    written := packing.writes.length
    allocated := packing.allocated.length
    freed := packing.freed.length }

def replaceChain (capacity : Nat) (entity : Entity) (changes : Changes)
    (chain : List StoredBlock) (runs : List Run) : InPlace EntityUpdate := do
  changeHeads fun heads => heads.ensureExtent entity
  repackChain capacity entity changes chain runs

def update (capacity : Nat) (entity : Entity) (changes : Changes) :
    InPlace EntityUpdate := do
  let chain ← readChain capacity entity
  replaceChain capacity entity changes chain (Run.route chain changes.toList)

end InPlace

/-!
## What the steps come to
-/

namespace InPlace

variable {parts : Parts}

@[simp]
theorem runOn_pure (value : α) : (pure value : InPlace α).runOn parts = (.ok value, parts) :=
  rfl

@[simp]
theorem runOn_get : (get : InPlace Parts).runOn parts = (.ok parts, parts) :=
  rfl

@[simp]
theorem runOn_modify (change : Parts -> Parts) :
    (modify change : InPlace Unit).runOn parts = (.ok (), change parts) :=
  rfl

@[simp]
theorem runOn_attempt (outcome : Except IndexError α) :
    (attempt outcome).runOn parts = (outcome, parts) :=
  rfl

theorem runOn_bind (first : InPlace α) (next : α -> InPlace β) :
    (first >>= next).runOn parts =
      match first.runOn parts with
      | (.ok value, after) => (next value).runOn after
      | (.error error, after) => (.error error, after) := by
  unfold runOn ExceptT.run StateT.run Id.run
  simp only [bind, ExceptT.bind, ExceptT.mk, StateT.bind, ExceptT.bindCont]
  cases first parts with
  | mk outcome after =>
      cases outcome with
      | error error =>
          rfl
      | ok value =>
          rfl

theorem runOn_bind_of_ok {first : InPlace α} {value : α} {after : Parts}
    (h : first.runOn parts = (.ok value, after)) (next : α -> InPlace β) :
    (first >>= next).runOn parts = (next value).runOn after := by
  rw [runOn_bind, h]

theorem fst_runOn_bind_of_error {first : InPlace α} {error : IndexError}
    (h : (first.runOn parts).fst = .error error) (next : α -> InPlace β) :
    ((first >>= next).runOn parts).fst = .error error := by
  rw [runOn_bind]
  cases hfirst : first.runOn parts with
  | mk outcome after =>
      rw [hfirst] at h
      cases outcome with
      | error failure =>
          exact congrArg Except.error (Except.error.inj h)
      | ok value =>
          cases h

theorem runOn_changeHeads {change : HeadTable -> Except IndexError HeadTable}
    {heads : HeadTable} (h : change parts.heads = .ok heads) :
    (changeHeads change).runOn parts = (.ok (), { parts with heads }) := by
  rw [changeHeads, runOn_bind_of_ok runOn_get, h]
  rfl

theorem runOn_choose_of_ok {state next : Assignment} {run : Run}
    (h : state.choose run = .ok next) :
    (choose state run).runOn parts = (.ok next, { parts with pool := next.pool }) := by
  rw [choose, h]
  rfl

theorem fst_runOn_choose_of_error {state : Assignment} {run : Run} {error : IndexError}
    (h : state.choose run = .error error) :
    ((choose state run).runOn parts).fst = .error error := by
  rw [choose, h]
  rfl

theorem runOn_chooseAll_of_ok {state after : Assignment} {runs : List Run}
    (hpool : parts.pool = state.pool)
    (h : runs.foldlM Assignment.choose state = .ok after) :
    (runs.foldlM choose state).runOn parts = (.ok after, { parts with pool := after.pool }) := by
  induction runs generalizing state parts with
  | nil =>
      rw [List.foldlM_nil, Outcome.pure_eq_ok] at h
      rw [← h, ← hpool]
      rfl
  | cons run rest ih =>
      rw [List.foldlM_cons, Outcome.bind_eq_ok] at h
      rcases h with ⟨next, hnext, hrest⟩
      rw [List.foldlM_cons, runOn_bind_of_ok (runOn_choose_of_ok hnext)]
      exact ih rfl hrest

theorem fst_runOn_chooseAll_of_error {state : Assignment} {runs : List Run}
    {error : IndexError} (h : runs.foldlM Assignment.choose state = .error error) :
    ((runs.foldlM choose state).runOn parts).fst = .error error := by
  induction runs generalizing state parts with
  | nil =>
      cases h
  | cons run rest ih =>
      rw [List.foldlM_cons, Outcome.bind_eq_error] at h
      rw [List.foldlM_cons]
      rcases h with hfirst | ⟨next, hnext, hrest⟩
      · exact fst_runOn_bind_of_error (fst_runOn_choose_of_error hfirst) _
      · rw [runOn_bind_of_ok (runOn_choose_of_ok hnext)]
        exact ih hrest

variable {capacity : Nat} {existing : List StoredBlock} {runs : List Run}

theorem runOn_pack_of_ok {packing : Packing}
    (h : Packing.ofRuns capacity existing runs parts.pool = .ok packing) :
    (pack capacity existing runs).runOn parts =
      (.ok packing, { parts with pool := packing.pool }) := by
  rcases Packing.ofRuns_eq_ok.mp h with ⟨state, hstate, rfl⟩
  rw [pack, runOn_bind_of_ok runOn_get, runOn_bind_of_ok (runOn_chooseAll_of_ok rfl hstate)]
  rfl

theorem fst_runOn_pack_of_error {error : IndexError}
    (h : Packing.ofRuns capacity existing runs parts.pool = .error error) :
    ((pack capacity existing runs).runOn parts).fst = .error error := by
  rw [Packing.ofRuns, Outcome.bind_eq_error] at h
  simp only [Outcome.pure_ne_error, and_false, exists_false, or_false] at h
  rw [pack, runOn_bind_of_ok runOn_get]
  exact fst_runOn_bind_of_error (fst_runOn_chooseAll_of_error h) _

theorem runOn_forM_cons (step : α -> InPlace Unit) (item : α) (rest : List α) :
    ((item :: rest).forM step).runOn parts =
      (step item >>= fun _ => rest.forM step).runOn parts :=
  rfl

theorem runOn_storeAll (writes : List StoredBlock) :
    (writes.forM store).runOn parts =
      (.ok (), { parts with arena := parts.arena.writeAll writes }) := by
  induction writes generalizing parts with
  | nil =>
      rfl
  | cons stored rest ih =>
      have hstored : (store stored).runOn parts =
          (.ok (), { parts with arena := parts.arena.write stored.id stored.block }) :=
        rfl
      rw [runOn_forM_cons, runOn_bind_of_ok hstored]
      exact ih

theorem runOn_giveBack (id : BlockId) :
    (giveBack id).runOn parts =
      match parts.pool.release id with
      | .ok pool => (.ok (), { parts with arena := parts.arena.clear id, pool })
      | .error error => (.error error, { parts with arena := parts.arena.clear id }) := by
  rw [giveBack, runOn_bind_of_ok (runOn_modify _), runOn_bind_of_ok runOn_get, runOn_bind,
    runOn_attempt]
  cases parts.pool.release id with
  | error error =>
      rfl
  | ok pool =>
      rfl

theorem runOn_giveBackAll_of_ok {ids : List BlockId} {pool : Pool}
    (h : ids.foldlM Pool.release parts.pool = .ok pool) :
    (ids.forM giveBack).runOn parts =
      (.ok (), { parts with arena := parts.arena.clearAll ids, pool }) := by
  induction ids generalizing parts with
  | nil =>
      rw [List.foldlM_nil, Outcome.pure_eq_ok] at h
      rw [← h]
      rfl
  | cons id rest ih =>
      rw [List.foldlM_cons, Outcome.bind_eq_ok] at h
      rcases h with ⟨between, hfirst, hrest⟩
      have hgiven : (giveBack id).runOn parts = _ := runOn_giveBack id
      rw [hfirst] at hgiven
      rw [runOn_forM_cons, runOn_bind_of_ok hgiven]
      exact ih hrest

theorem fst_runOn_giveBackAll_of_error {ids : List BlockId} {error : IndexError}
    (h : ids.foldlM Pool.release parts.pool = .error error) :
    ((ids.forM giveBack).runOn parts).fst = .error error := by
  induction ids generalizing parts with
  | nil =>
      cases h
  | cons id rest ih =>
      have hgiven : (giveBack id).runOn parts = _ := runOn_giveBack id
      rw [List.foldlM_cons, Outcome.bind_eq_error] at h
      rw [runOn_forM_cons]
      rcases h with hfirst | ⟨between, hbetween, hrest⟩
      · rw [hfirst] at hgiven
        exact fst_runOn_bind_of_error (congrArg Prod.fst hgiven) _
      · rw [hbetween] at hgiven
        rw [runOn_bind_of_ok hgiven]
        exact ih hrest

end InPlace

/-!
## Steps that cannot fail behind the check of the extent
-/

namespace HeadTable

variable {table : HeadTable} {entity : Entity}

theorem ensureExtent_of_checkExtent (h : table.checkExtent entity = .ok ()) :
    table.ensureExtent entity = .ok (table.extend entity) := by
  rw [ensureExtent, h]
  rfl

theorem setHead_extend (h : table.checkExtent entity = .ok ()) (head : Option BlockId) :
    (table.extend entity).setHead entity head =
      .ok ((table.extend entity).put entity head) := by
  rcases le_extent_of_checkExtent h with ⟨hmem, hle⟩
  have hextent := extent_extend hmem hle entity.type
  rw [if_pos rfl] at hextent
  have hknown : entity.type ∈ (table.extend entity).types := types_extend table entity ▸ hmem
  rcases exists_heads? hknown with ⟨heads, hheads⟩
  have hsize : entity.id.toNat < heads.size := by
    have hgrown : heads.size = max (table.extent entity.type) (entity.id.toNat + 1) := by
      rwa [extent, hheads] at hextent
    rw [hgrown]
    exact Nat.lt_of_lt_of_le (Nat.lt_succ_self _) (Nat.le_max_right _ _)
  simp only [setHead, heads_eq_ok.mpr hheads, bind, Except.bind, if_pos hsize]
  rfl

end HeadTable

/-!
## The update of an index in place
-/

namespace Index

def parts (index : Index) : Parts :=
  { pool := index.pool, heads := index.heads, arena := index.arena }

/-- What an update in place comes to, and the parts of the index behind it. -/
def updateInPlace (index : Index) (entity : Entity) (changes : Changes) :
    Except IndexError EntityUpdate × Parts :=
  (InPlace.update index.capacity entity changes).runOn index.parts

variable {index : Index} {entity : Entity} {changes : Changes} {result : Updated}
  {error : IndexError}

theorem runOn_readChain (index : Index) (entity : Entity) :
    (InPlace.readChain index.capacity entity).runOn index.parts =
      (index.heads.checkExtent entity >>= fun _ => index.chain entity, index.parts) :=
  rfl

theorem updateInPlace_of_checks
    (h : index.heads.checkExtent entity = .error error ∨
      (index.heads.checkExtent entity = .ok () ∧ index.chain entity = .error error)) :
    index.updateInPlace entity changes = (.error error, index.parts) := by
  have hread := runOn_readChain index entity
  rw [updateInPlace, InPlace.update, InPlace.runOn_bind, hread]
  rcases h with hcheck | ⟨hcheck, hchain⟩
  · rw [hcheck]
    rfl
  · rw [hcheck, hchain]
    rfl

theorem updateInPlace_of_found {chain : List StoredBlock}
    (hcheck : index.heads.checkExtent entity = .ok ())
    (hchain : index.chain entity = .ok chain) :
    index.updateInPlace entity changes =
      (InPlace.repackChain index.capacity entity changes chain
        (Run.route chain changes.toList)).runOn
          { index.parts with heads := index.heads.extend entity } := by
  have hread := runOn_readChain index entity
  rw [hcheck, hchain] at hread
  have hensure : index.parts.heads.ensureExtent entity = .ok (index.heads.extend entity) :=
    HeadTable.ensureExtent_of_checkExtent hcheck
  rw [updateInPlace, InPlace.update, InPlace.runOn_bind_of_ok hread, InPlace.replaceChain,
    InPlace.runOn_bind_of_ok (InPlace.runOn_changeHeads hensure)]

theorem updateInPlace_of_update (h : index.update entity changes = .ok result) :
    index.updateInPlace entity changes = (.ok result.update, result.index.parts) := by
  rcases update_eq_ok.mp h with ⟨chain, packing, hrepacks, haccount⟩
  have hpack : Packing.ofRuns index.capacity chain (Run.route chain changes.toList)
      index.pool = .ok packing := hrepacks.packed
  rcases install_eq_ok.mp hrepacks.installed with ⟨hfreed, _, hpool, hheads, harena⟩
  have hrelease := Pool.foldlM_release_eq_ok.mpr ⟨hfreed, hpool⟩
  have hset := HeadTable.setHead_extend hrepacks.check packing.head
  rw [updateInPlace_of_found hrepacks.check hrepacks.found, InPlace.repackChain,
    InPlace.runOn_bind_of_ok (InPlace.runOn_pack_of_ok hpack),
    InPlace.runOn_bind_of_ok (InPlace.runOn_storeAll _),
    InPlace.runOn_bind_of_ok (InPlace.runOn_giveBackAll_of_ok hrelease),
    InPlace.runOn_bind_of_ok (InPlace.runOn_changeHeads hset), InPlace.runOn_pure, haccount]
  have hparts : result.index.parts =
      { pool := result.index.pool
        heads := (index.heads.extend entity).put entity packing.head
        arena := (index.arena.writeAll packing.writes).clearAll packing.freed } := by
    rw [parts, hheads, harena]
  rw [hparts]
  rfl

theorem fst_updateInPlace_of_error (h : index.update entity changes = .error error) :
    (index.updateInPlace entity changes).fst = .error error := by
  rcases update_eq_error.mp h with hcheck | ⟨hcheck, hchain | ⟨chain, hchain, hrest⟩⟩
  · rw [updateInPlace_of_checks (Or.inl hcheck)]
  · rw [updateInPlace_of_checks (Or.inr ⟨hcheck, hchain⟩)]
  · rw [updateInPlace_of_found hcheck hchain, InPlace.repackChain]
    rcases hrest with hpack | ⟨packing, hpack, hinstall⟩
    · have hfailed : Packing.ofRuns index.capacity chain (Run.route chain changes.toList)
          index.pool = .error error := hpack
      exact InPlace.fst_runOn_bind_of_error (InPlace.fst_runOn_pack_of_error hfailed) _
    · have hrelease : packing.freed.foldlM Pool.release packing.pool = .error error := by
        simpa only [install, Outcome.bind_eq_error, Outcome.pure_ne_error, and_false,
          exists_false, or_false] using hinstall
      have hpacked : Packing.ofRuns index.capacity chain (Run.route chain changes.toList)
          index.pool = .ok packing := hpack
      rw [InPlace.runOn_bind_of_ok (InPlace.runOn_pack_of_ok hpacked),
        InPlace.runOn_bind_of_ok (InPlace.runOn_storeAll _)]
      exact InPlace.fst_runOn_bind_of_error
        (InPlace.fst_runOn_giveBackAll_of_error hrelease) _

/-- An update in place comes to what the update comes to. -/
theorem fst_updateInPlace (index : Index) (entity : Entity) (changes : Changes) :
    (index.updateInPlace entity changes).fst =
      (index.update entity changes).map Updated.update := by
  cases hupdate : index.update entity changes with
  | error error =>
      exact fst_updateInPlace_of_error hupdate
  | ok result =>
      rw [updateInPlace_of_update hupdate]
      rfl

theorem snd_updateInPlace_of_returned
    (h : (index.updateInPlace entity changes).fst = .error error)
    (hreturned : error.Returned) :
    (index.updateInPlace entity changes).snd = index.parts := by
  rw [fst_updateInPlace, Outcome.map_eq_error] at h
  rw [updateInPlace_of_checks (checks_of_update_eq_error h hreturned)]

/-!
## When an update fails
-/

theorem exists_corruptChain_of_chain (hmem : entity.type ∈ index.heads.types)
    (h : index.chain entity = .error error) :
    ∃ block fault, error = .corruptChain block fault := by
  rw [chain, HeadTable.headOf_of_mem hmem] at h
  exact index.arena.exists_corruptChain_of_chain h

theorem update_eq_error_of_found {chain : List StoredBlock}
    (hcheck : index.heads.checkExtent entity = .ok ())
    (hchain : index.chain entity = .ok chain) :
    index.update entity changes = .error error ↔
      (index.pool.remaining < index.demand chain changes ∧ error = .aborted .addOverflow) ∨
        ∃ packing id, index.repack chain changes = .ok packing ∧
          (packing.freed.find? fun id => decide (packing.pool.numBlocks ≤ id)) = some id ∧
            error = .aborted (.unallocated id) := by
  simp only [Index.update_eq_error, hcheck, hchain, reduceCtorEq, Except.ok.injEq, true_and,
    false_or, exists_eq_left']
  apply or_congr
  · exact Packing.ofRuns_eq_error
  · simp only [install, Outcome.bind_eq_error, Outcome.pure_ne_error, and_false,
      exists_false, or_false, Pool.foldlM_release_eq_error, exists_and_left]

theorem exists_update_of_allocated {chain : List StoredBlock}
    (hcheck : index.heads.checkExtent entity = .ok ())
    (hchain : index.chain entity = .ok chain)
    (hroom : index.demand chain changes ≤ index.pool.remaining)
    (hallocated : ∀ id ∈ chainIds chain, id < index.pool.numBlocks) :
    ∃ result, index.update entity changes = .ok result := by
  have hpacks : ∃ packing, index.repack chain changes = .ok packing := Packing.exists_ofRuns hroom
  rcases hpacks with ⟨packing, hpacked⟩
  have hfreed : ∀ id ∈ packing.freed, id < packing.pool.numBlocks := by
    intro id hmem
    rcases (mem_numbers hpacked).mp (Or.inr hmem) with hold | hnew
    · exact UInt32.lt_of_lt_of_le (hallocated id hold) (drawn_repack hpacked).le_numBlocks
    · rcases (packs_repack hpacked).frugal with hnone | hnone
      · rw [hnone] at hnew
        cases hnew
      · rw [hnone] at hmem
        cases hmem
  rcases exists_install hfreed with ⟨next, hinstall⟩
  let result : Updated := { index := next, update := account entity changes packing }
  exact ⟨result, update_eq_ok.mpr ⟨chain, packing, ⟨hcheck, hchain, hpacked, hinstall⟩, rfl⟩⟩

/--
An update in place fails for an unknown catalogue, for an entity beyond the next one,
and for a chain that cannot be followed; then the parts of the index are as before.
Otherwise it succeeds, unless numbers run out or the chain gives up a number that was
never handed out, for which it aborts.
-/
theorem updateInPlace_fails_as_announced (index : Index) (entity : Entity)
    (changes : Changes) :
    (entity.type ∉ index.heads.types ->
      index.updateInPlace entity changes =
        (.error (.unknownType entity.type), index.parts)) ∧
      (entity.type ∈ index.heads.types ->
        ∃ known, index.known entity.type = .ok known ∧
          (known < entity.id ->
            index.updateInPlace entity changes =
              (.error (.entityOutOfRange entity known), index.parts)) ∧
          (entity.id ≤ known ->
            (∀ error, index.chainLength entity = .error error ->
              (∃ block fault, error = .corruptChain block fault) ∧
                index.updateInPlace entity changes = (.error error, index.parts)) ∧
            ∀ chain, index.chain entity = .ok chain ->
              (index.demand chain changes ≤ index.pool.remaining ->
                (∀ id ∈ chainIds chain, id < index.pool.numBlocks) ->
                  ∃ result, index.update entity changes = .ok result ∧
                    index.updateInPlace entity changes =
                      (.ok result.update, result.index.parts)) ∧
              ∀ error, (index.updateInPlace entity changes).fst = .error error ↔
                (index.pool.remaining < index.demand chain changes ∧
                  error = .aborted .addOverflow) ∨
                ∃ packing id, index.repack chain changes = .ok packing ∧
                  (packing.freed.find? fun id =>
                    decide (packing.pool.numBlocks ≤ id)) = some id ∧
                  error = .aborted (.unallocated id))) ∧
      ∀ error, (index.updateInPlace entity changes).fst = .error error -> error.Returned ->
        (index.updateInPlace entity changes).snd = index.parts := by
  refine ⟨?_, ?_, ?_⟩
  · intro hnot
    exact updateInPlace_of_checks (Or.inl (HeadTable.checkExtent_of_not_mem hnot))
  · intro hmem
    refine ⟨index.heads.reported entity.type, HeadTable.known_of_mem hmem, ?_, ?_⟩
    · intro hlt
      exact updateInPlace_of_checks (Or.inl (HeadTable.checkExtent_of_lt hmem hlt))
    · intro hle
      have hcheck := HeadTable.checkExtent_eq_ok.mpr ⟨hmem, hle⟩
      constructor
      · intro error hlength
        have hchain := Outcome.map_eq_error.mp hlength
        exact ⟨exists_corruptChain_of_chain hmem hchain,
          updateInPlace_of_checks (Or.inr ⟨hcheck, hchain⟩)⟩
      · intro chain hchain
        constructor
        · intro hroom hallocated
          rcases exists_update_of_allocated hcheck hchain hroom hallocated with
            ⟨result, hupdate⟩
          exact ⟨result, hupdate, updateInPlace_of_update hupdate⟩
        · intro error
          rw [fst_updateInPlace, Outcome.map_eq_error]
          exact update_eq_error_of_found hcheck hchain
  · intro error herror hreturned
    exact snd_updateInPlace_of_returned herror hreturned

/--
The chain of a player holds a block whose number was never handed out.  The chain can
be followed, but an update that empties it aborts, and by then it has emptied the block
and left the head in its place.
-/
theorem updateInPlace_aborts_on_unallocated :
    let index : Index :=
      { capacity := 1
        pool := Pool.empty
        heads := { rows := [{ type := .player, heads := #[some 0] }] }
        arena := { blocks := #[{ postings := [{ game := 1, count := 1 }] }] }
        usable := by decide }
    let player : Entity := { type := .player, id := 0 }
    let changes := Changes.ofList [(1, 0)]
    (index.heads.checkExtent player = .ok () ∧ index.chainLength player = .ok 1 ∧
      index.updateInPlace player changes =
        (.error (.aborted (.unallocated 0)),
          { index.parts with arena := { blocks := #[{}] } })) ∧
    ¬ ∀ (index : Index) (entity : Entity) (changes : Changes) (length : Nat),
      index.heads.checkExtent entity = .ok () -> index.chainLength entity = .ok length ->
        ∃ account, (index.updateInPlace entity changes).fst = .ok account := by
  intro index player changes
  have hcheck : index.heads.checkExtent player = .ok () := by decide +kernel
  have hlength : index.chainLength player = .ok 1 := by decide +kernel
  have hrun : index.updateInPlace player changes =
      (.error (.aborted (.unallocated 0)),
        { index.parts with arena := { blocks := #[{}] } }) := by
    decide +kernel
  refine ⟨⟨hcheck, hlength, hrun⟩, ?_⟩
  intro hall
  rcases hall index player changes 1 hcheck hlength with ⟨account, haccount⟩
  rw [hrun] at haccount
  cases haccount

end Index

end PostingIndex
