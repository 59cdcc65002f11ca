import PostingIndex.Command
import PostingIndex.Proofs.DirectoryWrites
import PostingIndex.Proofs.Storing

/-!
# What commands leave in a directory

A command that fails leaves the directory as it was.  An update reads its answer
back after the file was written, but on an index that a file holds nothing can
fail there any more.  What an update or a batch writes is read back as the index
that it made of the one in the file before.

## Contents

What outcomes leave, indexes that are written into files, each command on its own,
and all commands.
-/

namespace PostingIndex

/-!
## Outcomes
-/

/-- A failure leaves the directory as it was, and a success leaves one with a property. -/
structure Outcome.Leaves (before : Directory) (goal : Directory -> Prop) (outcome : Outcome) :
    Prop where
  failure : outcome.stop ≠ none -> outcome.directory = before
  success : outcome.stop = none -> goal outcome.directory

namespace Outcome.Leaves

variable {before : Directory} {goal : Directory -> Prop} {outcome : Outcome}

theorem of_stop (h : outcome.stop = none) (hgoal : goal outcome.directory) :
    outcome.Leaves before goal where
  failure := fun hstop => absurd h hstop
  success := fun _ => hgoal

theorem mono {weaker : Directory -> Prop} (h : outcome.Leaves before goal)
    (hweaker : ∀ directory, goal directory -> weaker directory) :
    outcome.Leaves before weaker where
  failure := h.failure
  success := fun hstop => hweaker _ (h.success hstop)

theorem failed (notices : List Notice) (error : IndexError) :
    (Outcome.failed before notices error).Leaves before goal where
  failure := fun _ => rfl
  success := fun hstop => by cases hstop

theorem after {α : Type} {notices : List Notice} {result : Except IndexError α}
    {next : α -> Outcome} (h : ∀ value, result = .ok value -> (next value).Leaves before goal) :
    (Outcome.after before notices result next).Leaves before goal := by
  cases result with
  | error error =>
      exact failed notices error
  | ok value =>
      exact h value rfl

theorem directory_eq (h : outcome.Leaves before (· = before)) : outcome.directory = before := by
  cases hstop : outcome.stop with
  | none =>
      exact h.success hstop
  | some error =>
      exact h.failure (by simp [hstop])

end Outcome.Leaves

/-!
## Indexes in files
-/

namespace Directory

variable {directory : Directory} {path : String}

theorem storable_of_readIndex {index : Index} (h : directory.readIndex path = .ok index) :
    index.Storable := by
  unfold readIndex at h
  split at h
  · cases h
  · exact File.storable_of_read h

theorem readIndex_of_writeIndex {pack : List UInt8 -> List UInt8} {index : Index}
    {now : UInt64} {written : Directory} (h : index.Storable)
    (hpack : File.Unpacks pack index.heads)
    (hwrite : directory.writeIndex pack path index now = .ok written) :
    written.readIndex path = .ok index := by
  unfold writeIndex at hwrite
  split at hwrite
  · cases hwrite
  · next hbytes =>
      cases hwrite
      rw [readIndex, read_write hbytes]
      exact File.read_writeWith_of_storable h hpack now

end Directory

namespace Index

theorem Storable.exists_games {index : Index} (h : index.Storable) {entity : Entity}
    {changes : Changes} {result : Updated}
    (hupdate : index.update entity changes = .ok result) :
    ∃ games, result.index.games false entity = .ok games := by
  rcases update_eq_ok.mp hupdate with ⟨_, _, hrepacks, _⟩
  have hmem : entity.type ∈ result.index.heads.types := by
    rw [types_of_update hupdate]
    exact (HeadTable.checkExtent_eq_ok.mp hrepacks.check).left
  exact ⟨_, (updatesKeep_storable h hupdate).laid.games_eq hmem false⟩

end Index

/-!
## Commands
-/

namespace Command

variable {pack : List UInt8 -> List UInt8} {directory : Directory} {now : UInt64}

/-- Commands that work on files without changing one. -/
def ReadsOnly : Command -> Prop
  | create _ _ => False
  | createFrom _ _ => False
  | update _ _ _ _ => False
  | ingest _ _ _ => False
  | info _ _ => True
  | games _ _ _ _ => True
  | blocks _ _ => True
  | statistics _ _ => True
  | verify _ _ => True
  | exportLists _ _ => True

/-!
## One command after the other
-/

theorem leaves_runCreate (file : String) (config : Config) :
    (runCreate directory pack now file config).Leaves directory fun written =>
      ∃ index, Index.new config = .ok index ∧
        (File.Unpacks pack index.heads -> written.readIndex file = .ok index) := by
  apply Outcome.Leaves.after
  intro index hnew
  apply Outcome.Leaves.after
  intro written hwrite
  exact Outcome.Leaves.of_stop rfl ⟨index, hnew, fun hpack =>
    Directory.readIndex_of_writeIndex (Index.storable_new hnew) hpack hwrite⟩

theorem leaves_runCreateFrom (file configFile : String) :
    ((createFrom file configFile).runWith pack directory now).Leaves directory fun written =>
      ∃ config index, directory.readConfig configFile = .ok config ∧
        Index.new config = .ok index ∧
          (File.Unpacks pack index.heads -> written.readIndex file = .ok index) := by
  apply Outcome.Leaves.after
  intro config hconfig
  apply (leaves_runCreate file config).mono
  intro written h
  rcases h with ⟨index, hnew, hread⟩
  exact ⟨config, index, hconfig, hnew, hread⟩

theorem leaves_runUpdate {file : String} {entity : Entity} {changes : Changes} {json : Bool} :
    (runUpdate directory pack now file entity changes json).Leaves directory fun written =>
      ∃ index result, directory.readIndex file = .ok index ∧
        index.update entity changes = .ok result ∧
          (File.Unpacks pack result.index.heads ->
            written.readIndex file = .ok result.index) := by
  apply Outcome.Leaves.after
  intro index hread
  have hstorable := Directory.storable_of_readIndex hread
  apply Outcome.Leaves.after
  intro result hupdate
  apply Outcome.Leaves.after
  intro written hwrite
  -- The file was written, so nothing may fail from here on.
  rcases hstorable.exists_games hupdate with ⟨games, hgames⟩
  rw [hgames]
  exact Outcome.Leaves.of_stop rfl ⟨index, result, hread, hupdate, fun hpack =>
    Directory.readIndex_of_writeIndex (Index.updatesKeep_storable hstorable hupdate) hpack
      hwrite⟩

theorem leaves_runIngest {file changesFile : String} {json : Bool} :
    (runIngest directory pack now file changesFile json).Leaves directory fun written =>
      ∃ batch index, directory.readChanges changesFile = .ok batch ∧
        directory.readIndex file = .ok index ∧ (index.apply batch).stop = none ∧
          (File.Unpacks pack (index.apply batch).index.heads ->
            written.readIndex file = .ok (index.apply batch).index) := by
  apply Outcome.Leaves.after
  intro batch hbatch
  apply Outcome.Leaves.after
  intro index hread
  have hnext := Index.updatesKeep_storable.apply (Directory.storable_of_readIndex hread) batch
  cases hstop : (index.apply batch).stop with
  | some error =>
      simp only [hstop]
      exact ⟨fun _ => rfl, fun hnone => by cases hnone⟩
  | none =>
      simp only [hstop]
      apply Outcome.Leaves.after
      intro written hwrite
      exact Outcome.Leaves.of_stop rfl ⟨batch, index, hbatch, hread, hstop, fun hpack =>
        Directory.readIndex_of_writeIndex hnext hpack hwrite⟩

theorem leaves_runWith_of_readsOnly {command : Command} (h : command.ReadsOnly) :
    (command.runWith pack directory now).Leaves directory (· = directory) := by
  cases command with
  | create file config =>
      cases h
  | createFrom file configFile =>
      cases h
  | update file entity changes json =>
      cases h
  | ingest file changesFile json =>
      cases h
  | verify file json =>
      exact .after fun _ _ => .of_stop rfl rfl
  | info file json =>
      exact .after fun _ _ => .after fun _ _ => .of_stop rfl rfl
  | games file entity expand json =>
      exact .after fun _ _ => .after fun _ _ => .of_stop rfl rfl
  | blocks file json =>
      exact .after fun _ _ => .after fun _ _ => .after fun _ _ => .of_stop rfl rfl
  | statistics file json =>
      exact .after fun _ _ => .after fun _ _ => .of_stop rfl rfl
  | exportLists file indented =>
      exact .after fun _ _ => .after fun _ _ => .of_stop rfl rfl

/-!
## All commands
-/

/-- A command that fails leaves the directory as it was. -/
theorem directory_runWith_of_stop {command : Command}
    (hstop : (command.runWith pack directory now).stop ≠ none) :
    (command.runWith pack directory now).directory = directory := by
  by_cases hreads : command.ReadsOnly
  · exact (leaves_runWith_of_readsOnly hreads).directory_eq
  · cases command with
    | create file config =>
        exact (leaves_runCreate file config).failure hstop
    | createFrom file configFile =>
        exact (leaves_runCreateFrom file configFile).failure hstop
    | update file entity changes json =>
        exact leaves_runUpdate.failure hstop
    | ingest file changesFile json =>
        exact leaves_runIngest.failure hstop
    | _ =>
        exact absurd trivial hreads

/--
A command that fails leaves the directory as it was, and some commands do so
always.  An update or a batch that succeeds leaves the index in the file that it
made of the one before.  Once the file of an update was written, the games of the
entity are read and the update succeeds.
-/
theorem runWith_all_or_nothing (pack : List UInt8 -> List UInt8) (directory : Directory)
    (now : UInt64) :
    (∀ command : Command, (command.runWith pack directory now).stop ≠ none ->
      (command.runWith pack directory now).directory = directory) ∧
    (∀ command : Command, command.ReadsOnly ->
      (command.runWith pack directory now).directory = directory) ∧
    (∀ file entity changes json,
      let outcome := (update file entity changes json).runWith pack directory now
      outcome.stop = none ->
        ∃ index result, directory.readIndex file = .ok index ∧
          index.update entity changes = .ok result ∧
            (File.Unpacks pack result.index.heads ->
              outcome.directory.readIndex file = .ok result.index)) ∧
    (∀ file changesFile json,
      let outcome := (ingest file changesFile json).runWith pack directory now
      outcome.stop = none ->
        ∃ batch index, directory.readChanges changesFile = .ok batch ∧
          directory.readIndex file = .ok index ∧ (index.apply batch).stop = none ∧
            (File.Unpacks pack (index.apply batch).index.heads ->
              outcome.directory.readIndex file = .ok (index.apply batch).index)) ∧
    ∀ file entity changes json index result written,
      directory.readIndex file = .ok index -> index.update entity changes = .ok result ->
        directory.writeIndex pack file result.index now = .ok written ->
          (∃ games, result.index.games false entity = .ok games) ∧
            ((update file entity changes json).runWith pack directory now).stop = none := by
  refine ⟨fun _ => directory_runWith_of_stop,
    fun _ h => (leaves_runWith_of_readsOnly h).directory_eq, ?_, ?_, ?_⟩
  · intro file entity changes json outcome hstop
    exact leaves_runUpdate.success hstop
  · intro file changesFile json outcome hstop
    exact leaves_runIngest.success hstop
  · intro file entity changes json index result written hread hupdate hwrite
    rcases (Directory.storable_of_readIndex hread).exists_games hupdate with ⟨games, hgames⟩
    refine ⟨⟨games, hgames⟩, ?_⟩
    simp only [runWith, runUpdate, withIndex, saving, Outcome.after, hread, hupdate, hwrite,
      hgames]

/--
In a file of an index of players, a game of the first player comes in by an update
and by a document, and an update of the second player fails.
-/
theorem runWith_all_or_nothing_player :
    let start : Index :=
      { capacity := 1
        pool := Pool.empty
        heads := HeadTable.ofTypes [.player]
        arena := Arena.empty
        usable := by decide }
    let batch : List GameChange := [{ game := 4, new := some { white := some 0 } }]
    let directory : Directory :=
      { files := [(["games"], File.write start 0),
          (["changes"], "[\x7b\"game_id\":4,\"new\":\x7b\"white\":0\x7d\x7d]".toUTF8.data)] }
    let first : Entity := { type := .player, id := 0 }
    let changes : Changes := Changes.ofList [(4, 1)]
    let accepted : Command := .update "games" first changes true
    let refused : Command := .update "games" { type := .player, id := 1 } changes true
    let batched : Command := .ingest "games" "changes" true
    let described : Command := .statistics "games" true
    ((refused.runWith Lz4.compress directory 1).stop ≠ none ∧
      (refused.runWith Lz4.compress directory 1).directory = directory) ∧
    (described.ReadsOnly ∧
      (described.runWith Lz4.compress directory 1).directory = directory) ∧
    ((accepted.runWith Lz4.compress directory 1).stop = none ∧
      ∃ result, start.update first changes = .ok result ∧
        File.Unpacks Lz4.compress result.index.heads ∧
          (accepted.runWith Lz4.compress directory 1).directory.readIndex "games" =
            .ok result.index) ∧
    ((batched.runWith Lz4.compress directory 1).stop = none ∧
      File.Unpacks Lz4.compress (start.apply batch).index.heads ∧
        (batched.runWith Lz4.compress directory 1).directory.readIndex "games" =
          .ok (start.apply batch).index) ∧
    ∃ result written, start.update first changes = .ok result ∧
      directory.writeIndex Lz4.compress "games" result.index 1 = .ok written ∧
        (∃ games, result.index.games false first = .ok games) ∧
          (accepted.runWith Lz4.compress directory 1).stop = none := by
  intro start batch directory first changes accepted refused batched described
  have hread : directory.readIndex "games" = .ok start := by decide +kernel
  have hbatch : directory.readChanges "changes" = .ok batch := by decide +kernel
  have hstop : (refused.runWith Lz4.compress directory 1).stop ≠ none := by decide +kernel
  have hdone : (batched.runWith Lz4.compress directory 1).stop = none := by decide +kernel
  have hfacts : ∃ result written, start.update first changes = .ok result ∧
      directory.writeIndex Lz4.compress "games" result.index 1 = .ok written ∧
        File.Unpacks Lz4.compress result.index.heads := by
    have hall : (start.update first changes).isOk = true ∧
        ∀ result ∈ (start.update first changes).toOption,
          (directory.writeIndex Lz4.compress "games" result.index 1).isOk = true ∧
            File.Unpacks Lz4.compress result.index.heads := by decide +kernel
    rcases hall with ⟨hok, hall⟩
    cases hupdate : start.update first changes with
    | error error =>
        rw [hupdate] at hok
        cases hok
    | ok result =>
        rcases hall result (by rw [hupdate]; rfl) with ⟨hwritten, hpack⟩
        cases hwrite : directory.writeIndex Lz4.compress "games" result.index 1 with
        | error error =>
            rw [hwrite] at hwritten
            cases hwritten
        | ok written =>
            exact ⟨result, written, rfl, hwrite, hpack⟩
  have hpack' : File.Unpacks Lz4.compress (start.apply batch).index.heads := by decide +kernel
  rcases hfacts with ⟨result, written, hupdate, hwrite, hpack⟩
  rcases runWith_all_or_nothing Lz4.compress directory 1 with
    ⟨hfailure, hreads, hupdated, happlied, hanswered⟩
  have hanswer := hanswered _ _ _ true start result written hread hupdate hwrite
  rcases hupdated _ _ _ _ hanswer.right with ⟨index, other, hindex, hother, hsaved⟩
  rw [hread, Except.ok.injEq] at hindex
  rw [← hindex, hupdate, Except.ok.injEq] at hother
  rw [← hother] at hsaved
  rcases happlied _ _ _ hdone with ⟨found, index', hfound, hindex', _, hsaved'⟩
  rw [hread, Except.ok.injEq] at hindex'
  rw [hbatch, Except.ok.injEq] at hfound
  rw [← hindex', ← hfound] at hsaved'
  exact ⟨⟨hstop, hfailure _ hstop⟩, ⟨trivial, hreads described trivial⟩,
    ⟨hanswer.right, result, hupdate, hpack, hsaved hpack⟩,
    ⟨hdone, hpack', hsaved' hpack'⟩, result, written, hupdate, hwrite, hanswer⟩

end Command

end PostingIndex
