import Mathlib.Data.List.Forall2

/-!
# Outcomes of fallible operations

## Contents

When a sequence of operations that may fail succeeds, and when it fails.
-/

namespace PostingIndex

namespace Outcome

variable {ε α β : Type _}

@[simp]
theorem bind_eq_ok {first : Except ε α} {next : α -> Except ε β} {result : β} :
    (first >>= next) = .ok result ↔
      ∃ value, first = .ok value ∧ next value = .ok result := by
  cases first with
  | error error =>
      simp [bind, Except.bind]
  | ok value =>
      simp [bind, Except.bind]

@[simp]
theorem bind_eq_error {first : Except ε α} {next : α -> Except ε β} {error : ε} :
    (first >>= next) = .error error ↔
      first = .error error ∨
        ∃ value, first = .ok value ∧ next value = .error error := by
  cases first with
  | error error =>
      simp [bind, Except.bind]
  | ok value =>
      simp [bind, Except.bind]

theorem check_bind_eq_error {check : Except ε PUnit} {next : PUnit -> Except ε β} {error : ε} :
    (check >>= next) = .error error ↔
      check = .error error ∨ (check = .ok () ∧ next () = .error error) := by
  rw [bind_eq_error, Unique.exists_iff]

@[simp]
theorem map_eq_ok {first : Except ε α} {change : α -> β} {result : β} :
    first.map change = .ok result ↔ ∃ value, first = .ok value ∧ change value = result := by
  cases first with
  | error error =>
      simp [Except.map]
  | ok value =>
      simp [Except.map]

@[simp]
theorem map_eq_error {first : Except ε α} {change : α -> β} {error : ε} :
    first.map change = .error error ↔ first = .error error := by
  cases first with
  | error error =>
      simp [Except.map]
  | ok value =>
      simp [Except.map]

@[simp]
theorem functor_map_eq_ok {first : Except ε α} {change : α -> β} {result : β} :
    change <$> first = .ok result ↔ ∃ value, first = .ok value ∧ change value = result :=
  map_eq_ok

@[simp]
theorem functor_map_eq_error {first : Except ε α} {change : α -> β} {error : ε} :
    change <$> first = .error error ↔ first = .error error :=
  map_eq_error

@[simp]
theorem pure_eq_ok {value result : α} :
    (pure value : Except ε α) = .ok result ↔ value = result := by
  simp [pure, Except.pure]

@[simp]
theorem pure_ne_error {value : α} {error : ε} :
    (pure value : Except ε α) ≠ .error error := by
  simp [pure, Except.pure]

theorem ite_throw_eq_ok {caught : Prop} [Decidable caught] {error : ε}
    {next : α -> Except ε β} {rest : Except ε β} {result : β} :
    (if caught then throw error >>= next else rest) = .ok result ↔
      ¬caught ∧ rest = .ok result := by
  by_cases h : caught
  · simp [h]
  · simp [h]

theorem mapM_eq_ok {items : List α} {step : α -> Except ε β} {results : List β} :
    items.mapM step = .ok results ↔
      List.Forall₂ (fun item result => step item = .ok result) items results := by
  induction items generalizing results with
  | nil =>
      cases results <;> simp
  | cons item items ih =>
      rw [List.mapM_cons]
      cases results with
      | nil =>
          simp
      | cons result results =>
          simp [ih]

theorem exists_mapM_eq_ok {items : List α} {step : α -> Except ε β}
    (h : ∀ item ∈ items, ∃ result, step item = .ok result) :
    ∃ results, items.mapM step = .ok results := by
  induction items with
  | nil =>
      exact ⟨[], rfl⟩
  | cons item items ih =>
      rcases h item (by simp) with ⟨result, hresult⟩
      rcases ih (fun other hmem => h other (List.mem_cons_of_mem _ hmem)) with
        ⟨results, hresults⟩
      exact ⟨result :: results, by simp [hresult, hresults]⟩

theorem mapM_eq_ok_map {items : List α} {step : α -> Except ε β} {value : α -> β}
    (h : ∀ item ∈ items, step item = .ok (value item)) :
    items.mapM step = .ok (items.map value) := by
  rw [mapM_eq_ok, List.forall₂_map_right_iff, List.forall₂_same]
  exact h

theorem mapM_filterMap_eq_ok {γ : Type _} {items : List γ} {find? : γ -> Option α}
    {step : α -> Except ε β} {value : γ -> β}
    (h : ∀ item ∈ items, ∀ found ∈ find? item, step found = .ok (value item)) :
    (items.filterMap find?).mapM step =
      .ok ((items.filter fun item => (find? item).isSome).map value) := by
  induction items with
  | nil =>
      rfl
  | cons item items ih =>
      rcases List.forall_mem_cons.mp h with ⟨hfirst, hrest⟩
      cases hfound : find? item with
      | none =>
          simp [hfound, ih hrest]
      | some found =>
          simp [hfound, hfirst found hfound, ih hrest]

def failure? : Except ε α -> Option ε
  | .ok _ => none
  | .error error => some error

theorem mapM_eq_error {items : List α} {step : α -> Except ε β} {error : ε} :
    items.mapM step = .error error ↔
      items.findSome? (fun item => failure? (step item)) = some error := by
  induction items with
  | nil =>
      simp
  | cons item items ih =>
      rw [List.mapM_cons, List.findSome?_cons]
      cases step item with
      | error failure =>
          simp [failure?]
      | ok value =>
          simpa [failure?] using ih

theorem foldlM_eq_error {reason : ε -> Prop} {step : β -> α -> Except ε β}
    (hstep : ∀ state item error, step state item = .error error -> reason error)
    {items : List α} {state : β} {error : ε}
    (h : items.foldlM step state = .error error) : reason error := by
  induction items generalizing state with
  | nil =>
      simp at h
  | cons item items ih =>
      rw [List.foldlM_cons, bind_eq_error] at h
      rcases h with hfirst | ⟨next, _, hrest⟩
      · exact hstep state item error hfirst
      · exact ih hrest

theorem exists_of_foldlM_eq_error {step : β -> α -> Except ε β} {items : List α}
    {state : β} {error : ε} (h : items.foldlM step state = .error error) :
    ∃ before item after between, items = before ++ item :: after ∧
      before.foldlM step state = .ok between ∧ step between item = .error error := by
  induction items generalizing state with
  | nil =>
      simp at h
  | cons item items ih =>
      rw [List.foldlM_cons, bind_eq_error] at h
      rcases h with hfirst | ⟨next, hnext, hrest⟩
      · exact ⟨[], item, items, state, rfl, rfl, hfirst⟩
      · rcases ih hrest with ⟨before, found, after, between, heq, hbefore, hfound⟩
        refine ⟨item :: before, found, after, between, by rw [heq]; rfl, ?_, hfound⟩
        rw [List.foldlM_cons, bind_eq_ok]
        exact ⟨next, hnext, hbefore⟩

theorem forM_eq_ok {step : α -> Except ε PUnit} {items : List α} :
    items.forM step = .ok PUnit.unit ↔ ∀ item ∈ items, step item = .ok PUnit.unit := by
  induction items with
  | nil =>
      simp [List.forM]
  | cons item items ih =>
      rw [List.forM, bind_eq_ok, List.forall_mem_cons, ← ih]
      constructor
      · rintro ⟨⟨⟩, hfirst, hrest⟩
        exact ⟨hfirst, hrest⟩
      · rintro ⟨hfirst, hrest⟩
        exact ⟨PUnit.unit, hfirst, hrest⟩

theorem forM_eq_error {reason : ε -> Prop} {step : α -> Except ε PUnit}
    (hstep : ∀ item error, step item = .error error -> reason error)
    {items : List α} {error : ε} (h : items.forM step = .error error) :
    reason error := by
  induction items with
  | nil =>
      simp [List.forM] at h
  | cons item items ih =>
      rw [List.forM, bind_eq_error] at h
      rcases h with hfirst | ⟨_, _, hrest⟩
      · exact hstep item error hfirst
      · exact ih hrest

end Outcome

end PostingIndex
