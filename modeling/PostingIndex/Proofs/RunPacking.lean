import Mathlib.Data.List.Basic
import PostingIndex.Chain.Packing
import PostingIndex.Proofs.Routing

/-!
# Splitting and joining runs

Packing cuts long runs into parts of nearly equal length and joins neighbours
that fit one block.  Neither changes the postings, and every run that comes out
fits a block.  The origins of the runs are kept or given up, never lost.

## Contents

The parts of an even cut, the pieces of a run, and what joining neighbours keeps.
-/

namespace PostingIndex

/-!
## Even cuts
-/

theorem evenPartsOnto_eq {α : Type _} (done : List (List α)) (pieces length : Nat)
    (items : List α) :
    evenPartsOnto done pieces length items =
      done.reverse ++ evenPartsOnto [] pieces length items := by
  induction pieces generalizing done length items with
  | zero =>
      simp [evenPartsOnto]
  | succ pieces ih =>
      rw [evenPartsOnto, ih, evenPartsOnto, ih [_]]
      simp

theorem evenPartsOnto_succ {α : Type _} (pieces length : Nat) (items : List α) :
    evenPartsOnto [] (pieces + 1) length items =
      items.take ((length + pieces) / (pieces + 1)) ::
        evenPartsOnto [] pieces (length - (length + pieces) / (pieces + 1))
          (items.drop ((length + pieces) / (pieces + 1))) := by
  rw [evenPartsOnto, evenPartsOnto_eq]
  rfl

theorem firstPart_le (pieces length : Nat) :
    (length + pieces) / (pieces + 1) ≤ length := by
  cases length with
  | zero =>
      exact Nat.le_of_eq (Nat.div_eq_of_lt (by omega))
  | succ length =>
      apply Nat.div_le_of_le_mul
      rw [Nat.mul_comm, Nat.mul_succ]
      have h : pieces ≤ (length + 1) * pieces := Nat.le_mul_of_pos_left _ (Nat.succ_pos _)
      omega

theorem flatten_evenPartsOnto {α : Type _} (pieces : Nat) (items : List α)
    (h : pieces = 0 -> items = []) :
    (evenPartsOnto [] pieces items.length items).flatten = items := by
  induction pieces generalizing items with
  | zero =>
      simp [evenPartsOnto, h rfl]
  | succ pieces ih =>
      rw [evenPartsOnto_succ, List.flatten_cons]
      have hrest : pieces = 0 ->
          items.drop ((items.length + pieces) / (pieces + 1)) = [] := by
        intro hzero
        simp [hzero]
      have hflat := ih _ hrest
      rw [List.length_drop] at hflat
      rw [hflat, List.take_append_drop]

theorem rest_bounds {low high pieces length : Nat} (hlow : low * (pieces + 1) ≤ length)
    (hhigh : length ≤ high * (pieces + 1)) :
    let size := (length + pieces) / (pieces + 1)
    (low ≤ size ∧ size ≤ high) ∧
      low * pieces ≤ length - size ∧ length - size ≤ high * pieces := by
  intro size
  have hpos : 0 < pieces + 1 := Nat.succ_pos pieces
  have hsizeLow : low ≤ size := (Nat.le_div_iff_mul_le hpos).mpr (by omega)
  have hsizeHigh : size ≤ high := by
    apply Nat.lt_succ_iff.mp
    apply (Nat.div_lt_iff_lt_mul hpos).mpr
    rw [Nat.succ_mul]
    omega
  -- The size is the quotient rounded up.
  have hbelow : size * (pieces + 1) ≤ length + pieces := Nat.div_mul_le_self _ _
  have habove : length + pieces < (size + 1) * (pieces + 1) :=
    (Nat.div_lt_iff_lt_mul hpos).mp (Nat.lt_succ_self size)
  rw [Nat.mul_succ] at hbelow hlow hhigh
  rw [Nat.succ_mul, Nat.mul_succ] at habove
  refine ⟨⟨hsizeLow, hsizeHigh⟩, ?_, ?_⟩
  · rcases Nat.eq_or_lt_of_le hsizeLow with heq | hlt
    · omega
    · have hmul : (low + 1) * pieces ≤ size * pieces := Nat.mul_le_mul_right _ hlt
      rw [Nat.succ_mul] at hmul
      omega
  · have hmul : size * pieces ≤ high * pieces := Nat.mul_le_mul_right _ hsizeHigh
    omega

theorem length_of_mem_evenPartsOnto {α : Type _} {low high pieces : Nat}
    {items part : List α} (hlow : low * pieces ≤ items.length)
    (hhigh : items.length ≤ high * pieces)
    (hmem : part ∈ evenPartsOnto [] pieces items.length items) :
    low ≤ part.length ∧ part.length ≤ high := by
  induction pieces generalizing items with
  | zero =>
      simp [evenPartsOnto] at hmem
  | succ pieces ih =>
      rcases rest_bounds hlow hhigh with ⟨hsize, hrestLow, hrestHigh⟩
      rw [evenPartsOnto_succ] at hmem
      rcases List.mem_cons.mp hmem with heq | hmem
      · rw [heq, List.length_take, Nat.min_eq_left (firstPart_le pieces items.length)]
        exact hsize
      · rw [← List.length_drop] at hrestLow hrestHigh hmem
        exact ih hrestLow hrestHigh hmem

theorem blocksFor_bounds {capacity : Nat} (hcapacity : 0 < capacity) (length : Nat) :
    1 * Run.blocksFor capacity length ≤ length ∧
      length ≤ capacity * Run.blocksFor capacity length := by
  unfold Run.blocksFor
  constructor
  · have h := firstPart_le (capacity - 1) length
    rw [Nat.sub_add_cancel hcapacity] at h
    omega
  · have h : length + (capacity - 1) <
        ((length + (capacity - 1)) / capacity + 1) * capacity :=
      (Nat.div_lt_iff_lt_mul hcapacity).mp (Nat.lt_succ_self _)
    rw [Nat.succ_mul, Nat.mul_comm] at h
    omega

/-!
## Pieces of runs
-/

namespace Run

/-- A run that can be a block: it holds something, and no more than fits. -/
def FitsBlock (capacity : Nat) (run : Run) : Prop :=
  run.postings ≠ [] ∧ run.postings.length ≤ capacity

def origins (runs : List Run) : List BlockId :=
  runs.filterMap Run.origin

@[simp]
theorem origins_nil : origins [] = [] :=
  rfl

@[simp]
theorem origins_cons (run : Run) (runs : List Run) :
    origins (run :: runs) = run.origin.toList ++ origins runs := by
  cases h : run.origin with
  | none =>
      simp [origins, h]
  | some id =>
      simp [origins, h]

@[simp]
theorem origins_append (left right : List Run) :
    origins (left ++ right) = origins left ++ origins right :=
  List.filterMap_append

theorem runPostings_ofParts (parts : List (List Posting)) :
    runPostings (parts.map fun part => { origin := none, postings := part }) =
      parts.flatten := by
  induction parts with
  | nil =>
      rfl
  | cons part parts ih =>
      rw [List.map_cons, runPostings_cons, ih, List.flatten_cons]

theorem origins_ofParts (parts : List (List Posting)) :
    origins (parts.map fun part => { origin := none, postings := part }) = [] := by
  induction parts with
  | nil =>
      rfl
  | cons part parts ih =>
      rw [List.map_cons, origins_cons, ih]
      rfl

/--
A run that holds something is cut into parts.  The first one keeps the origin,
and all of them fit a block.
-/
theorem pieces_eq {capacity : Nat} (hcapacity : 0 < capacity) (run : Run)
    (hfilled : run.postings ≠ []) :
    ∃ first rest, (first :: rest).flatten = run.postings ∧
      (∀ part ∈ first :: rest, part ≠ [] ∧ part.length ≤ capacity) ∧
        pieces capacity run = { origin := run.origin, postings := first } ::
          rest.map fun part => { origin := none, postings := part } := by
  have hpos : 0 < run.postings.length := List.length_pos_iff.mpr hfilled
  by_cases hfits : run.postings.length ≤ capacity
  · refine ⟨run.postings, [], by simp, ?_, ?_⟩
    · intro part hmem
      rw [List.mem_singleton.mp hmem]
      exact ⟨hfilled, hfits⟩
    · simp [pieces, hfilled, hfits]
  · rcases blocksFor_bounds hcapacity run.postings.length with ⟨hlow, hhigh⟩
    have hflat : (evenParts (blocksFor capacity run.postings.length)
        run.postings).flatten = run.postings := by
      apply flatten_evenPartsOnto
      intro hzero
      rw [hzero] at hhigh
      omega
    cases hparts : evenParts (blocksFor capacity run.postings.length) run.postings with
    | nil =>
        rw [hparts] at hflat
        exact absurd hflat.symm hfilled
    | cons first rest =>
        refine ⟨first, rest, hparts ▸ hflat, ?_, ?_⟩
        · intro part hmem
          rw [← hparts] at hmem
          have hlength := length_of_mem_evenPartsOnto hlow hhigh hmem
          exact ⟨List.ne_nil_of_length_pos hlength.left, hlength.right⟩
        · simp [pieces, hfilled, hfits, hparts]

theorem pieces_empty {capacity : Nat} {run : Run} (h : run.postings = []) :
    pieces capacity run = [] := by
  simp [pieces, h]

@[simp]
theorem runPostings_pieces {capacity : Nat} (hcapacity : 0 < capacity) (run : Run) :
    runPostings (pieces capacity run) = run.postings := by
  by_cases h : run.postings = []
  · rw [pieces_empty h, h, runPostings_nil]
  · rcases pieces_eq hcapacity run h with ⟨first, rest, hflat, _, hpieces⟩
    rw [hpieces, runPostings_cons, runPostings_ofParts, ← hflat, List.flatten_cons]

theorem fitsBlock_of_mem_pieces {capacity : Nat} (hcapacity : 0 < capacity)
    {run piece : Run} (hmem : piece ∈ pieces capacity run) : piece.FitsBlock capacity := by
  by_cases h : run.postings = []
  · rw [pieces_empty h] at hmem
    cases hmem
  · rcases pieces_eq hcapacity run h with ⟨first, rest, _, hfits, hpieces⟩
    rw [hpieces] at hmem
    rcases List.mem_cons.mp hmem with heq | hmem
    · rw [heq]
      exact hfits first (by simp)
    · rcases List.mem_map.mp hmem with ⟨part, hpart, heq⟩
      rw [← heq]
      exact hfits part (List.mem_cons_of_mem _ hpart)

theorem origins_pieces {capacity : Nat} (hcapacity : 0 < capacity) (run : Run) :
    origins (pieces capacity run) ++ emptyOrigins [run] = run.origin.toList := by
  by_cases h : run.postings = []
  · rw [pieces_empty h, origins_nil]
    cases horigin : run.origin with
    | none =>
        simp [emptyOrigins, h, horigin]
    | some id =>
        simp [emptyOrigins, h, horigin]
  · rcases pieces_eq hcapacity run h with ⟨first, rest, _, _, hpieces⟩
    rw [hpieces, origins_cons, origins_ofParts]
    simp [emptyOrigins, h]

theorem runPostings_flatMap_pieces {capacity : Nat} (hcapacity : 0 < capacity)
    (runs : List Run) : runPostings (runs.flatMap (pieces capacity)) = runPostings runs := by
  induction runs with
  | nil =>
      rfl
  | cons run runs ih =>
      rw [List.flatMap_cons, runPostings_append, ih, runPostings_pieces hcapacity,
        runPostings_cons]

theorem emptyOrigins_cons (run : Run) (runs : List Run) :
    emptyOrigins (run :: runs) = emptyOrigins [run] ++ emptyOrigins runs := by
  rw [emptyOrigins, emptyOrigins, emptyOrigins, ← List.filterMap_append,
    List.singleton_append]

theorem origins_flatMap_pieces {capacity : Nat} (hcapacity : 0 < capacity)
    (runs : List Run) :
    (origins (runs.flatMap (pieces capacity)) ++ emptyOrigins runs).Perm
      (origins runs) := by
  induction runs with
  | nil =>
      exact List.Perm.refl _
  | cons run runs ih =>
      rw [List.flatMap_cons, origins_append, emptyOrigins_cons, origins_cons,
        ← origins_pieces hcapacity run]
      have hswap := (List.perm_append_comm_assoc
        (origins (runs.flatMap (pieces capacity))) (emptyOrigins [run])
        (emptyOrigins runs)).append_left (origins (pieces capacity run))
      have hrest := ih.append_left (origins (pieces capacity run) ++ emptyOrigins [run])
      simp only [List.append_assoc] at hswap hrest ⊢
      exact hswap.trans hrest

/-!
## Joining neighbours
-/

theorem joined_add_runPostings (capacity : Nat) (joined : Joined) (run : Run) :
    runPostings (joined.add capacity run).runs.reverse =
      runPostings joined.runs.reverse ++ run.postings := by
  rcases joined with ⟨runs, released⟩
  cases runs with
  | nil =>
      simp [Joined.add]
  | cons last earlier =>
      by_cases h : last.postings.length + run.postings.length ≤ capacity
      · simp [Joined.add, h, append]
      · simp [Joined.add, h]

theorem joined_add_fitsBlock {capacity : Nat} {joined : Joined} {run : Run}
    (hjoined : ∀ other ∈ joined.runs, other.FitsBlock capacity)
    (hrun : run.FitsBlock capacity) :
    ∀ other ∈ (joined.add capacity run).runs, other.FitsBlock capacity := by
  rcases joined with ⟨runs, released⟩
  cases runs with
  | nil =>
      intro other hmem
      rw [List.mem_singleton.mp hmem]
      exact hrun
  | cons last earlier =>
      by_cases h : last.postings.length + run.postings.length ≤ capacity
      · intro other hmem
        simp only [Joined.add, h, if_true, List.mem_cons] at hmem
        rcases hmem with heq | hmem
        · rw [heq]
          constructor
          · intro hnil
            exact hrun.left (List.append_eq_nil_iff.mp hnil).right
          · simpa [append] using h
        · exact hjoined other (List.mem_cons_of_mem _ hmem)
      · intro other hmem
        simp only [Joined.add, h, if_false, List.mem_cons] at hmem
        rcases hmem with heq | hmem
        · rw [heq]
          exact hrun
        · exact hjoined other (List.mem_cons.mpr hmem)

def Joined.accounted (joined : Joined) : List BlockId :=
  origins joined.runs ++ joined.released

theorem joined_add_accounted (capacity : Nat) (joined : Joined) (run : Run) :
    (joined.add capacity run).accounted.Perm (joined.accounted ++ run.origin.toList) := by
  rcases joined with ⟨runs, released⟩
  have hnew : (run.origin.toList ++ (origins runs ++ released)).Perm
      ((origins runs ++ released) ++ run.origin.toList) :=
    List.perm_append_comm
  cases runs with
  | nil =>
      simpa [Joined.add, Joined.accounted] using hnew
  | cons last earlier =>
      by_cases h : last.postings.length + run.postings.length ≤ capacity
      · cases hlast : last.origin with
        | none =>
            simpa [Joined.add, Joined.accounted, h, append, hlast] using hnew
        | some id =>
            have hmove : (origins earlier ++ (run.origin.toList ++ released)).Perm
                (origins earlier ++ (released ++ run.origin.toList)) :=
              List.perm_append_comm.append_left _
            simpa [Joined.add, Joined.accounted, h, append, hlast] using hmove
      · simpa [Joined.add, Joined.accounted, h] using hnew

theorem runPostings_foldl_add (capacity : Nat) (joined : Joined) (runs : List Run) :
    runPostings (runs.foldl (Joined.add capacity) joined).runs.reverse =
      runPostings joined.runs.reverse ++ runPostings runs := by
  induction runs generalizing joined with
  | nil =>
      simp
  | cons run runs ih =>
      rw [List.foldl_cons, ih, joined_add_runPostings, runPostings_cons,
        List.append_assoc]

theorem fitsBlock_foldl_add {capacity : Nat} {joined : Joined} {runs : List Run}
    (hjoined : ∀ run ∈ joined.runs, run.FitsBlock capacity)
    (hruns : ∀ run ∈ runs, run.FitsBlock capacity) :
    ∀ run ∈ (runs.foldl (Joined.add capacity) joined).runs, run.FitsBlock capacity := by
  induction runs generalizing joined with
  | nil =>
      exact hjoined
  | cons run runs ih =>
      rw [List.foldl_cons]
      apply ih
      · exact joined_add_fitsBlock hjoined (hruns run (by simp))
      · intro other hmem
        exact hruns other (List.mem_cons_of_mem _ hmem)

theorem accounted_foldl_add (capacity : Nat) (joined : Joined) (runs : List Run) :
    (runs.foldl (Joined.add capacity) joined).accounted.Perm
      (joined.accounted ++ origins runs) := by
  induction runs generalizing joined with
  | nil =>
      simp
  | cons run runs ih =>
      rw [List.foldl_cons, origins_cons, ← List.append_assoc]
      exact (ih _).trans ((joined_add_accounted capacity joined run).append_right _)

theorem runPostings_join (capacity : Nat) (runs : List Run) :
    runPostings (join capacity runs).runs.reverse = runPostings runs := by
  rw [join, runPostings_foldl_add]
  rfl

theorem fitsBlock_join {capacity : Nat} {runs : List Run}
    (h : ∀ run ∈ runs, run.FitsBlock capacity) :
    ∀ run ∈ (join capacity runs).runs, run.FitsBlock capacity := by
  apply fitsBlock_foldl_add _ h
  intro run hmem
  cases hmem

theorem accounted_join (capacity : Nat) (runs : List Run) :
    (join capacity runs).accounted.Perm (origins runs) :=
  accounted_foldl_add capacity {} runs

end Run

end PostingIndex
