import PostingIndex.Config

/-!
# Usable configurations

## Contents

The configurations that an index can be built from: at least one catalogue, none
of them twice, and a capacity that a page can describe.
-/

namespace PostingIndex

namespace Config

/-- An index can be built from a configuration. -/
structure Usable (config : Config) : Prop where
  some : config.types ≠ []
  distinct : config.types.Nodup
  positive : 0 < config.capacity
  bounded : config.capacity ≤ maxCapacity

theorem firstRepeated?_eq_none {seen types : List EntityType} :
    firstRepeated? seen types = none ↔ types.Nodup ∧ ∀ type ∈ types, type ∉ seen := by
  induction types generalizing seen with
  | nil =>
      simp [firstRepeated?]
  | cons type rest ih =>
      by_cases h : type ∈ seen
      · simp [firstRepeated?, h]
      · rw [firstRepeated?, if_neg h, ih, List.nodup_cons]
        constructor
        · intro hcase
          rcases hcase with ⟨hrest, hseen⟩
          refine ⟨⟨fun hmem => hseen type hmem (by simp), hrest⟩, ?_⟩
          intro other hmem
          rcases List.mem_cons.mp hmem with heq | hmem
          · exact heq ▸ h
          · exact fun hother => hseen other hmem (List.mem_cons_of_mem _ hother)
        · intro hcase
          rcases hcase with ⟨⟨hnew, hrest⟩, hseen⟩
          refine ⟨hrest, ?_⟩
          intro other hmem hother
          rcases List.mem_cons.mp hother with heq | hold
          · exact hnew (heq ▸ hmem)
          · exact hseen other (List.mem_cons_of_mem _ hmem) hold

theorem fault?_eq_none {config : Config} : config.fault? = none ↔ config.Usable := by
  unfold fault?
  constructor
  · intro h
    by_cases hempty : config.types = []
    · simp [hempty] at h
    · cases hrepeated : firstRepeated? [] config.types with
      | some type =>
          simp [hempty, hrepeated] at h
      | none =>
          simp only [hrepeated, List.isEmpty_iff, hempty, if_false, ite_eq_right_iff,
            reduceCtorEq, imp_false, not_or, Nat.not_lt] at h
          exact ⟨hempty, (firstRepeated?_eq_none.mp hrepeated).left,
            Nat.pos_of_ne_zero h.left, h.right⟩
  · intro h
    have hrepeated : firstRepeated? [] config.types = none :=
      firstRepeated?_eq_none.mpr ⟨h.distinct, by simp⟩
    simp [h.some, hrepeated, Nat.ne_of_gt h.positive, Nat.not_lt.mpr h.bounded]

end Config

end PostingIndex
