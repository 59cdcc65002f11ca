import Mathlib.Algebra.Order.BigOperators.Group.List
import Mathlib.Algebra.Order.Ring.Nat
import Mathlib.Algebra.Group.Action.Defs
import PostingIndex.Proofs.PeakBlocks

/-!
# Tightly packed chains

Joining goes over the pieces from left to right and leaves two neighbours apart
only where they do not fit one block.  A block that was left apart can only grow
afterwards, so in the end no two neighbours fit one block, whatever the chain
looked like before.  Such a chain has about twice the blocks that its postings
need at most, and a posting list that fits one block lies in one.

## Contents

Lengths whose neighbours do not fit one block, what joining and packing make of
them, the guarantee for one chain, and all chains along a run.
-/

namespace PostingIndex

/-!
## Crowded lengths
-/

/-- No two neighbours among some lengths fit one block. -/
def Crowded (capacity : Nat) (lengths : List Nat) : Prop :=
  lengths.IsChain fun left right => capacity < left + right

namespace Crowded

variable {capacity : Nat} {lengths : List Nat}

theorem tail {length : Nat} (h : Crowded capacity (length :: lengths)) :
    Crowded capacity lengths :=
  List.IsChain.tail h

theorem reverse (h : Crowded capacity lengths) : Crowded capacity lengths.reverse := by
  unfold Crowded
  rw [List.isChain_reverse]
  exact h.imp fun _ _ hlt => Nat.add_comm _ _ ▸ hlt

theorem cons_of_le {less more : Nat} (h : Crowded capacity (less :: lengths))
    (hle : less ≤ more) : Crowded capacity (more :: lengths) := by
  cases lengths with
  | nil =>
      exact List.isChain_singleton _
  | cons next rest =>
      rcases List.isChain_cons_cons.mp h with ⟨hlt, hrest⟩
      exact List.isChain_cons_cons.mpr ⟨by omega, hrest⟩

/-- Taken in pairs, crowded lengths fill half of their blocks. -/
theorem length_mul_le {lengths : List Nat} (h : Crowded capacity lengths) :
    lengths.length * capacity ≤ 2 * lengths.sum + capacity := by
  match lengths, h with
  | [], _ =>
      simp
  | [length], _ =>
      simp
  | left :: right :: rest, h =>
      have hlt := (List.isChain_cons_cons.mp h).left
      have hrest := length_mul_le h.tail.tail
      simp only [List.length_cons, List.sum_cons, Nat.succ_mul]
      omega

theorem length_eq_one (h : Crowded capacity lengths) (hpos : 1 ≤ lengths.sum)
    (hfits : lengths.sum ≤ capacity) : lengths.length = 1 := by
  match lengths, h with
  | [], _ =>
      simp at hpos
  | [length], _ =>
      rfl
  | left :: right :: rest, h =>
      have hlt := (List.isChain_cons_cons.mp h).left
      simp only [List.sum_cons] at hfits
      omega

end Crowded

/-!
## What joining and packing make
-/

namespace Run

def lengths (runs : List Run) : List Nat :=
  runs.map fun run => run.postings.length

theorem crowded_add {capacity : Nat} {joined : Joined}
    (h : Crowded capacity (lengths joined.runs)) (run : Run) :
    Crowded capacity (lengths (joined.add capacity run).runs) := by
  rcases joined with ⟨runs, released⟩
  cases runs with
  | nil =>
      exact List.isChain_singleton _
  | cons last earlier =>
      by_cases hfits : last.postings.length + run.postings.length ≤ capacity
      · -- The latest run grows, and the one before it was left apart already.
        simp only [Joined.add, hfits, if_true]
        apply h.cons_of_le
        simp [append]
      · simp only [Joined.add, hfits, if_false]
        refine List.isChain_cons_cons.mpr ⟨?_, h⟩
        rw [Nat.add_comm]
        exact Nat.not_le.mp hfits

theorem crowded_foldl_add {capacity : Nat} {joined : Joined} (runs : List Run)
    (h : Crowded capacity (lengths joined.runs)) :
    Crowded capacity (lengths (runs.foldl (Joined.add capacity) joined).runs) := by
  induction runs generalizing joined with
  | nil =>
      exact h
  | cons run rest ih =>
      exact ih (crowded_add h run)

theorem crowded_join (capacity : Nat) (runs : List Run) :
    Crowded capacity (lengths (join capacity runs).runs.reverse) := by
  have hjoined : Crowded capacity (lengths (join capacity runs).runs) :=
    crowded_foldl_add runs List.isChain_nil
  have hreverse := hjoined.reverse
  rwa [lengths, ← List.map_reverse] at hreverse

end Run

def chainLengths (chain : List StoredBlock) : List Nat :=
  chain.map fun stored => stored.block.postings.length

@[simp]
theorem length_chainLengths (chain : List StoredBlock) :
    (chainLengths chain).length = chain.length :=
  List.length_map _

@[simp]
theorem sum_chainLengths (chain : List StoredBlock) :
    (chainLengths chain).sum = (chainPostings chain).length := by
  rw [chainLengths, chainPostings, List.length_flatMap]

namespace Packing

theorem crowded_ofRuns {capacity : Nat} {existing : List StoredBlock} {runs : List Run}
    {pool : Pool} {packing : Packing}
    (h : ofRuns capacity existing runs pool = .ok packing) :
    Crowded capacity (chainLengths packing.chain) := by
  have hpostings := congrArg (List.map List.length) (map_postings_ofRuns h)
  rw [List.map_map, List.map_map] at hpostings
  show Crowded capacity (packing.chain.map
    (List.length ∘ fun stored => stored.block.postings))
  rw [hpostings]
  exact Run.crowded_join capacity (runs.flatMap (Run.pieces capacity))

end Packing

/-!
## One chain
-/

/-- What packing guarantees of a chain and of the head that it starts from. -/
structure Tight (capacity : Nat) (head : Option BlockId) (chain : List StoredBlock) :
    Prop where
  filled : ∀ stored ∈ chain,
    1 ≤ stored.block.postings.length ∧ stored.block.postings.length ≤ capacity
  apart : chain.IsChain fun left right =>
    capacity < left.block.postings.length + right.block.postings.length
  headless : head = none ↔ (chainPostings chain).length = 0
  single : 1 ≤ (chainPostings chain).length -> (chainPostings chain).length ≤ capacity ->
    chain.length = 1
  enough : Run.blocksFor capacity (chainPostings chain).length ≤ chain.length
  bounded : chain.length * capacity ≤ 2 * (chainPostings chain).length + capacity

theorem chainHead_eq_none {chain : List StoredBlock}
    (hfilled : ∀ stored ∈ chain, stored.block.postings ≠ []) :
    chainHead chain = none ↔ (chainPostings chain).length = 0 := by
  cases chain with
  | nil =>
      simp [chainHead]
  | cons stored rest =>
      have hstored := hfilled stored List.mem_cons_self
      simp [chainHead, hstored]

theorem blocksFor_le_length {capacity : Nat} (hcapacity : 0 < capacity)
    {chain : List StoredBlock}
    (hfits : ∀ stored ∈ chain, stored.block.postings.length ≤ capacity) :
    Run.blocksFor capacity (chainPostings chain).length ≤ chain.length := by
  have hlengths : ∀ length ∈ chainLengths chain, length ≤ capacity := by
    intro length hmem
    rcases List.mem_map.mp hmem with ⟨stored, hstored, heq⟩
    exact heq ▸ hfits stored hstored
  have hsum := List.sum_le_card_nsmul _ _ hlengths
  rw [sum_chainLengths, length_chainLengths, smul_eq_mul] at hsum
  apply Nat.lt_succ_iff.mp
  apply (Nat.div_lt_iff_lt_mul hcapacity).mpr
  rw [Nat.succ_mul]
  omega

theorem tight_of_crowded {capacity : Nat} (hcapacity : 0 < capacity)
    {chain : List StoredBlock}
    (hfits : ∀ stored ∈ chain,
      stored.block.postings ≠ [] ∧ stored.block.postings.length ≤ capacity)
    (hcrowded : Crowded capacity (chainLengths chain)) :
    Tight capacity (chainHead chain) chain where
  filled := fun stored hmem =>
    ⟨List.length_pos_iff.mpr (hfits stored hmem).left, (hfits stored hmem).right⟩
  apart := (List.isChain_map _).mp hcrowded
  headless := chainHead_eq_none fun stored hmem => (hfits stored hmem).left
  single := by
    have hone := hcrowded.length_eq_one
    rwa [sum_chainLengths, length_chainLengths] at hone
  enough := blocksFor_le_length hcapacity fun stored hmem => (hfits stored hmem).right
  bounded := by
    have hbound := hcrowded.length_mul_le
    rwa [sum_chainLengths, length_chainLengths] at hbound

namespace Index

variable {index : Index} {layout : Layout} {entity : Entity} {changes : Changes}
  {packing : Packing}

theorem tight_repack {chain : List StoredBlock}
    (h : index.repack chain changes = .ok packing) :
    Tight index.capacity packing.head packing.chain :=
  tight_of_crowded index.capacity_pos (packs_repack h).fits (Packing.crowded_ofRuns h)

/-- The chain of an entity can be read, and it is as packing leaves it. -/
def PackedAt (index : Index) (entity : Entity) : Prop :=
  ∃ head chain, index.heads.headOf entity = .ok head ∧ index.chain entity = .ok chain ∧
    Tight index.capacity head chain

theorem Laid.packedAt (h : index.Laid layout) (hmem : entity.type ∈ index.heads.types)
    (hcrowded : Crowded index.capacity (chainLengths (layout entity.slot))) :
    index.PackedAt entity := by
  have hsound := h.sound entity.slot
  refine ⟨chainHead (layout entity.slot), layout entity.slot, ?_, h.chain_eq hmem, ?_⟩
  · rw [HeadTable.headOf_of_mem hmem, h.starts]
  · apply tight_of_crowded index.capacity_pos _ hcrowded
    intro stored hstored
    exact ⟨hsound.filled stored hstored, hsound.fits stored hstored⟩

theorem crowded_relaid_self {chain : List StoredBlock}
    (h : index.repack chain changes = .ok packing) :
    Crowded index.capacity (chainLengths (relaid layout entity packing entity.slot)) := by
  rw [relaid_self]
  exact Packing.crowded_ofRuns h

theorem Addressed.packedAt_update (h : index.Addressed layout) {result : Updated}
    (hupdate : index.update entity changes = .ok result) :
    result.index.PackedAt entity := by
  rcases h.update hupdate with ⟨packing, hrepacks, _, hnext, _⟩
  apply hnext.packedAt
  · rw [types_of_update hupdate]
    exact (HeadTable.checkExtent_eq_ok.mp hrepacks.check).left
  · rw [capacity_of_update hupdate]
    exact crowded_relaid_self hrepacks.packed

/-!
## All chains along a run
-/

/-- An index with a sound layout whose chains are all crowded. -/
def AllCrowded (index : Index) : Prop :=
  ∃ layout, index.Addressed layout ∧
    ∀ slot, Crowded index.capacity (chainLengths (layout slot))

theorem allCrowded_new {config : Config} {index : Index} (h : new config = .ok index) :
    index.AllCrowded :=
  ⟨_, addressed_new h, fun _ => List.isChain_nil⟩

theorem crowded_relaid {chain : List StoredBlock}
    (hpack : index.repack chain changes = .ok packing)
    (h : ∀ slot, Crowded index.capacity (chainLengths (layout slot))) (slot : Slot) :
    Crowded index.capacity (chainLengths (relaid layout entity packing slot)) := by
  by_cases heq : slot = entity.slot
  · rw [heq]
    exact crowded_relaid_self hpack
  · rw [relaid_of_ne _ _ heq]
    exact h slot

theorem updatesKeep_allCrowded : UpdatesKeep AllCrowded := by
  intro index entity changes result h hupdate
  rcases h with ⟨layout, haddressed, hcrowded⟩
  rcases haddressed.update hupdate with ⟨packing, hrepacks, _, hnext, _⟩
  refine ⟨_, hnext, ?_⟩
  rw [capacity_of_update hupdate]
  exact crowded_relaid hrepacks.packed hcrowded

-- An index that is read from a file may have sparse chains, so reloads are covered by
-- what they read back and not by what reading ensures.
theorem Storable.allCrowded_step (h : index.Storable) (hcrowded : index.AllCrowded)
    {step : Step} (hunpack : index.Unpacks step) : (index.step step).AllCrowded := by
  cases step with
  | update request =>
      exact updatesKeep_allCrowded.call hcrowded request
  | batch batch =>
      exact updatesKeep_allCrowded.apply hcrowded batch
  | reload pack createdAt =>
      rw [h.step_reload hunpack createdAt]
      exact hcrowded

theorem Storable.allCrowded_steps {row : List Step} (h : index.Storable)
    (hcrowded : index.AllCrowded) (hunpack : AllUnpack index row) :
    (index.steps row).AllCrowded := by
  induction row generalizing index with
  | nil =>
      exact hcrowded
  | cons step rest ih =>
      exact ih (lasting_storable.step h step) (h.allCrowded_step hcrowded hunpack.left)
        hunpack.right

/--
On an audited index, every update packs the chain of its entity tightly, whatever
the chain was like before.  Where links of 32 bits reach all of the arena, this is the
chain that is read afterwards, and along a run of a new index all chains are so at any
time.
-/
theorem packed_along_runs :
    (∀ (index : Index) (entity : Entity) (changes : Changes) (result : Updated),
      index.verify = .ok () -> index.update entity changes = .ok result ->
        (∃ chain packing, index.Repacks entity changes chain packing result.index ∧
          Tight index.capacity packing.head packing.chain) ∧
        (index.arena.size < 2 ^ 32 -> result.index.PackedAt entity)) ∧
    ∀ config start row, new config = .ok start -> AllUnpack start row ->
      ∀ entity : Entity, entity.type ∈ (start.steps row).heads.types ->
        (start.steps row).PackedAt entity := by
  constructor
  · intro index entity changes result hverify hupdate
    constructor
    · rcases update_eq_ok.mp hupdate with ⟨chain, packing, hrepacks, _⟩
      exact ⟨chain, packing, hrepacks, tight_repack hrepacks.packed⟩
    · intro hsize
      exact (addressed_of_verify hverify hsize).packedAt_update hupdate
  · intro config start row hnew hunpack entity hmem
    rcases (storable_new hnew).allCrowded_steps (allCrowded_new hnew) hunpack with
      ⟨layout, haddressed, hcrowded⟩
    exact haddressed.packedAt hmem (hcrowded entity.slot)

/--
A sparse chain of two blocks is packed into one by a change that keeps a count, and
a run with a batch and a reload leaves the chain of its first player packed.
-/
theorem packed_along_runs_players :
    let sparse : Index :=
      { capacity := 2
        pool := Pool.ofParts 2 []
        heads := { rows := [{ type := .player, heads := #[some 0] }] }
        arena := { blocks := #[
          { postings := [{ game := 4, count := 1 }], next := some 1 },
          { postings := [{ game := 7, count := 2 }] }] }
        usable := by decide }
    let player : Entity := { type := .player, id := 0 }
    let changes := Changes.ofList [(4, 1)]
    let row : List Step := [
      .update { entity := player, changes := Changes.ofList [(4, 1), (7, 2), (8, 1)] },
      .reload Lz4.compress 0,
      .batch [{ game := 5, new := some { white := some 0, black := some 1 } }]]
    (∃ result, sparse.verify = .ok () ∧ sparse.update player changes = .ok result ∧
      sparse.arena.size < 2 ^ 32 ∧ result.update.freed = 1 ∧
      result.index.PackedAt player) ∧
    ∃ start, new { types := [.player], capacity := 2 } = .ok start ∧
      AllUnpack start row ∧
      (start.steps row).chainLength player = .ok 2 ∧ (start.steps row).PackedAt player := by
  intro sparse player changes row
  have hverify : sparse.verify = .ok () := by decide +kernel
  have hsize : sparse.arena.size < 2 ^ 32 := by decide
  have hfreed : ((sparse.update player changes).map fun result => result.update.freed) =
      .ok 1 := by
    decide +kernel
  rcases Outcome.map_eq_ok.mp hfreed with ⟨result, hupdate, hone⟩
  let start : Index :=
    { capacity := 2
      pool := Pool.empty
      heads := HeadTable.ofTypes [.player]
      arena := Arena.empty
      usable := by decide }
  have hnew : new { types := [.player], capacity := 2 } = .ok start := rfl
  have hunpack : AllUnpack start row := by decide +kernel
  have hlength : (start.steps row).chainLength player = .ok 2 := by decide +kernel
  rcases packed_along_runs with ⟨hupdates, hrun⟩
  refine ⟨⟨result, hverify, hupdate, hsize, hone, ?_⟩, start, hnew, hunpack, hlength, ?_⟩
  · exact (hupdates sparse player changes result hverify hupdate).right hsize
  · apply hrun _ start row hnew hunpack player
    decide +kernel

end Index

end PostingIndex
