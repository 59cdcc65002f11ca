import PostingIndex.Directory
import PostingIndex.Proofs.Outcome

/-!
# Reading a file after it was written

A file that was written is read back under the same path.  Writing changes no
folder, so every path leads where it led before.

## Contents

The way along a path, what a write needs, and the file afterwards.
-/

namespace PostingIndex

namespace Directory

variable {directory : Directory} {path : String} {names : List String} {bytes : FileBytes}

@[simp]
theorem find?_put_self (directory : Directory) (names : List String) (bytes : FileBytes) :
    (directory.put names bytes).find? names = some bytes := by
  simp [find?, put]

@[simp]
theorem isFolder_put (directory : Directory) (names : List String) (bytes : FileBytes)
    (folder : List String) :
    (directory.put names bytes).isFolder folder = directory.isFolder folder :=
  rfl

/-!
## The way along a path
-/

theorem enter_eq_ok {folder next : List String} {step : String} :
    directory.enter folder step = .ok next ↔
      if Path.isDots step then Path.take folder step = next
      else step.utf8ByteSize ≤ Path.maxNameBytes ∧
        directory.isFolder (folder ++ [step]) ∧ folder ++ [step] = next := by
  unfold enter placeAt
  by_cases hdots : Path.isDots step
  · simp [hdots]
  · by_cases hlong : Path.maxNameBytes < step.utf8ByteSize
    · simp [hdots, hlong, Nat.not_le.mpr hlong]
    · by_cases hfolder : directory.isFolder (folder ++ [step])
      · simp [hdots, hlong, hfolder, Nat.not_lt.mp hlong]
      · cases directory.find? (folder ++ [step]) with
        | none =>
            simp [hdots, hlong, hfolder]
        | some found =>
            simp [hdots, hlong, hfolder]

theorem enter_put {folder next : List String} {step : String}
    (h : directory.enter folder step = .ok next) :
    (directory.put names bytes).enter folder step = .ok next := by
  rw [enter_eq_ok] at h ⊢
  exact h

theorem foldlM_enter_put {folder next : List String} {steps : List String}
    (h : steps.foldlM directory.enter folder = .ok next) :
    steps.foldlM (directory.put names bytes).enter folder = .ok next := by
  induction steps generalizing folder with
  | nil =>
      exact h
  | cons step rest ih =>
      rw [List.foldlM_cons, Outcome.bind_eq_ok] at h ⊢
      rcases h with ⟨middle, hmiddle, hrest⟩
      exact ⟨middle, enter_put hmiddle, ih hrest⟩

theorem follow_put {path : Path} {target : Target} (h : directory.follow path = .ok target) :
    (directory.put names bytes).follow path = .ok target := by
  rw [follow, Outcome.bind_eq_ok] at h ⊢
  rcases h with ⟨folder, hfolder, hlast⟩
  exact ⟨folder, foldlM_enter_put hfolder, hlast⟩

theorem target_put {target : Target} (h : directory.target path = .ok target) :
    (directory.put names bytes).target path = .ok target := by
  unfold Directory.target at h ⊢
  split at h
  · cases h
  · next hzero =>
      rw [if_neg hzero]
      split at h
      · cases h
      · next hempty =>
          rw [if_neg hempty]
          split at h
          · cases h
          · next hlong =>
              rw [if_neg hlong]
              exact follow_put h

/-!
## Writing and reading
-/

theorem write_eq_ok {written : Directory} :
    directory.write path bytes = .ok written ↔
      ∃ folder name, directory.target path = .ok (.entry folder name) ∧
        (Path.ofString path).endsInSlash = false ∧
          name.utf8ByteSize ≤ Path.maxNameBytes ∧
            directory.isFolder (folder ++ [name]) = false ∧
              directory.put (folder ++ [name]) bytes = written := by
  rw [write, Outcome.bind_eq_ok]
  constructor
  · intro h
    rcases h with ⟨target, htarget, h⟩
    cases target with
    | folder =>
        simp at h
    | entry folder name =>
        refine ⟨folder, name, htarget, ?_⟩
        by_cases hslash : (Path.ofString path).endsInSlash
        · simp [hslash] at h
        · by_cases hlong : Path.maxNameBytes < name.utf8ByteSize
          · simp [hslash, placeAt, hlong] at h
          · by_cases hfolder : directory.isFolder (folder ++ [name])
            · simp [hslash, placeAt, hlong, hfolder] at h
            · refine ⟨by simpa using hslash, Nat.not_lt.mp hlong, by simpa using hfolder, ?_⟩
              cases hfind : directory.find? (folder ++ [name]) with
              | none =>
                  simpa [hslash, placeAt, hlong, hfolder, hfind] using h
              | some found =>
                  simpa [hslash, placeAt, hlong, hfolder, hfind] using h
  · intro h
    rcases h with ⟨folder, name, htarget, hslash, hshort, hfolder, heq⟩
    refine ⟨_, htarget, ?_⟩
    cases hfind : directory.find? (folder ++ [name]) with
    | none =>
        simp [hslash, placeAt, Nat.not_lt.mpr hshort, hfolder, hfind, heq]
    | some found =>
        simp [hslash, placeAt, Nat.not_lt.mpr hshort, hfolder, hfind, heq]

theorem read_write {written : Directory} (h : directory.write path bytes = .ok written) :
    written.read path = .ok bytes := by
  rcases write_eq_ok.mp h with ⟨folder, name, htarget, hslash, hshort, hfolder, heq⟩
  have hplace : (directory.put (folder ++ [name]) bytes).placeAt folder name =
      .ok (.file bytes) := by
    simp [placeAt, Nat.not_lt.mpr hshort, hfolder]
  have hlocate : written.locate path = .ok (.file bytes) := by
    rw [locate, Outcome.bind_eq_ok, ← heq]
    refine ⟨_, target_put htarget, ?_⟩
    simp [hplace, hslash]
  rw [read, Outcome.bind_eq_ok]
  exact ⟨_, hlocate, rfl⟩

end Directory

end PostingIndex
