import PostingIndex.Proofs.BatchCounts

/-!
# The index mirrors the headers

Beside an index stands the book of all games with their current headers.  As
long as every change starts from the header that the book has by then, the
posting list of an entity is the list of the games whose headers name it, with
how often they do.

## Contents

Books of games, truthful batches, the counts that a book stands for, and an
index kept along with a book.
-/

namespace PostingIndex

open GameChange

/-- The current headers of all games. -/
abbrev GameBook :=
  Std.TreeMap GameId GameHeader

namespace GameBook

def record (book : GameBook) (change : GameChange) : GameBook :=
  match change.new with
  | some header => book.insert change.game header
  | none => book.erase change.game

def recordAll (book : GameBook) (batch : List GameChange) : GameBook :=
  batch.foldl record book

/-- Every change of a batch starts from the header that its game has by then. -/
def Truthful (book : GameBook) : List GameChange -> Prop
  | [] => True
  | change :: rest => change.old = book[change.game]? ∧ Truthful (book.record change) rest

instance decidableTruthful (book : GameBook) :
    (batch : List GameChange) -> Decidable (Truthful book batch)
  | [] => .isTrue trivial
  | change :: rest =>
      let _ := decidableTruthful (book.record change) rest
      inferInstanceAs (Decidable (change.old = book[change.game]? ∧
        Truthful (book.record change) rest))

/-- The games whose headers name an entity, ascending, with how often they do. -/
def perGame (book : GameBook) (entity : Entity) : List (GameId × Nat) :=
  (book.toList.map fun entry => (entry.1, entry.2.times entity)).filter fun entry =>
    entry.2 ≠ 0

/-!
## The counts of a book
-/

theorem mem_perGame {book : GameBook} {entity : Entity} {game : GameId} {number : Nat} :
    (game, number) ∈ book.perGame entity ↔
      number ≠ 0 ∧ timesOf book[game]? entity = number := by
  simp only [perGame, List.mem_filter, List.mem_map, Prod.exists, Prod.mk.injEq,
    Std.TreeMap.mem_toList_iff_getElem?_eq_some, decide_eq_true_eq]
  constructor
  · rintro ⟨⟨found, header, hget, hgame, htimes⟩, hpositive⟩
    rw [← hgame, hget]
    exact ⟨hpositive, htimes⟩
  · rintro ⟨hpositive, htimes⟩
    cases hget : book[game]? with
    | none =>
        rw [hget] at htimes
        exact absurd htimes.symm hpositive
    | some header =>
        rw [hget] at htimes
        exact ⟨⟨game, header, hget, rfl, htimes⟩, hpositive⟩

theorem ascending_perGame (book : GameBook) (entity : Entity) :
    (book.perGame entity).Pairwise fun left right => left.1 < right.1 := by
  apply List.Pairwise.filter
  rw [List.pairwise_map]
  apply Std.TreeMap.ordered_keys_toList.imp
  intro left right hlt
  exact compareOfLessAndEq_eq_lt.mp hlt

theorem eq_perGame_iff {book : GameBook} {entity : Entity} {pairs : List (GameId × Nat)}
    {numbers : GameId -> Nat} (hpairs : pairs.Pairwise fun left right => left.1 < right.1)
    (hmem : ∀ game number, (game, number) ∈ pairs ↔ number ≠ 0 ∧ numbers game = number) :
    pairs = book.perGame entity ↔ ∀ game, numbers game = timesOf book[game]? entity := by
  constructor
  · intro hsame game
    by_cases hzero : numbers game = 0
    · by_contra hdiffers
      rw [hzero] at hdiffers
      have htimes := mem_perGame.mpr ⟨Ne.symm hdiffers, rfl⟩
      rw [← hsame, hmem, hzero] at htimes
      exact hdiffers htimes.right
    · have hnumber := (hmem game (numbers game)).mpr ⟨hzero, rfl⟩
      rw [hsame, mem_perGame] at hnumber
      exact hnumber.right.symm
  · intro hnumbers
    apply Ascending.ext_of_key Prod.fst hpairs (book.ascending_perGame entity)
    rintro ⟨game, number⟩
    rw [hmem, mem_perGame, hnumbers]

/-- A posting list shows what a book says exactly if they agree on every game. -/
theorem perGame_eq_iff {book : GameBook} {entity : Entity} {postings : List Posting}
    (hordered : Posting.Ordered postings) :
    Posting.perGame postings = book.perGame entity ↔
      ∀ game, numberOf (Posting.countIn? postings game) = timesOf book[game]? entity :=
  eq_perGame_iff hordered.ascending_perGame fun _ _ => Posting.mem_perGame hordered

theorem perGame_eq_perGame_iff {left right : GameBook} {entity : Entity} :
    left.perGame entity = right.perGame entity ↔
      ∀ game : GameId, timesOf left[game]? entity = timesOf right[game]? entity :=
  eq_perGame_iff (left.ascending_perGame entity) fun _ _ => mem_perGame

theorem getElem?_record (book : GameBook) (change : GameChange) (game : GameId) :
    (book.record change)[game]? =
      if change.game = game then change.new else book[game]? := by
  unfold record
  cases hnew : change.new with
  | none =>
      simp [Std.TreeMap.getElem?_erase]
  | some header =>
      simp [Std.TreeMap.getElem?_insert]

theorem numberOf_settle_newCount? {change : GameChange} (hcountable : ¬ change.Uncountable)
    {entity : Entity} {before : Option UInt32}
    (hbefore : numberOf before = timesOf change.old entity) :
    numberOf (settle before (change.newCount? entity)) = timesOf change.new entity := by
  unfold newCount?
  split
  · next hsame =>
      rw [settle, hbefore, hsame]
  · rw [numberOf_settle_some]
    apply UInt32.toNat_ofNat_of_lt'
    rw [← Nat.not_le]
    exact fun hfull => hcountable ⟨entity, Or.inr hfull⟩

theorem numberOf_settle_request? {book : GameBook} {change : GameChange}
    (htruthful : change.old = book[change.game]?) (hcountable : ¬ change.Uncountable)
    {entity : Entity} {game : GameId} {before : Option UInt32}
    (hbefore : numberOf before = timesOf book[game]? entity) :
    numberOf (settle before (change.request? entity game)) =
      timesOf (book.record change)[game]? entity := by
  rw [getElem?_record, request?]
  by_cases hgame : change.game = game
  · subst hgame
    rw [if_pos rfl, if_pos rfl]
    rw [← htruthful] at hbefore
    exact numberOf_settle_newCount? hcountable hbefore
  · rw [if_neg hgame, if_neg hgame]
    exact hbefore

theorem numberOf_settle_lastRequest? {book : GameBook} {batch : List GameChange}
    (htruthful : book.Truthful batch) (hcountable : ∀ change ∈ batch, ¬ change.Uncountable)
    {entity : Entity} {game : GameId} {before : Option UInt32}
    (hbefore : numberOf before = timesOf book[game]? entity) :
    numberOf (settle before (lastRequest? batch entity game)) =
      timesOf (book.recordAll batch)[game]? entity := by
  rw [settle_lastRequest?]
  induction batch generalizing book before with
  | nil =>
      exact hbefore
  | cons change rest ih =>
      rcases List.forall_mem_cons.mp hcountable with ⟨hchange, hrest⟩
      exact ih htruthful.right hrest
        (numberOf_settle_request? htruthful.left hchange hbefore)

end GameBook

structure IndexedGames where
  index : Index
  book : GameBook

namespace IndexedGames

open Index

/-- Index and book after a batch; the book follows only a batch that succeeds. -/
def step (games : IndexedGames) (batch : List GameChange) : IndexedGames :=
  match (games.index.apply batch).stop with
  | none => { index := (games.index.apply batch).index, book := games.book.recordAll batch }
  | some _ => { games with index := (games.index.apply batch).index }

def steps (games : IndexedGames) (row : List (List GameChange)) : IndexedGames :=
  row.foldl step games

def AllTruthful (games : IndexedGames) : List (List GameChange) -> Prop
  | [] => True
  | batch :: rest => games.book.Truthful batch ∧ AllTruthful (games.step batch) rest

instance decidableAllTruthful (games : IndexedGames) :
    (row : List (List GameChange)) -> Decidable (AllTruthful games row)
  | [] => .isTrue trivial
  | batch :: rest =>
      let _ := decidableAllTruthful (games.step batch) rest
      inferInstanceAs (Decidable (games.book.Truthful batch ∧
        AllTruthful (games.step batch) rest))

/-- Every batch of a row succeeds or returns an error; none of them aborts. -/
def AllReturn (games : IndexedGames) : List (List GameChange) -> Prop
  | [] => True
  | batch :: rest =>
      (∀ error ∈ (games.index.apply batch).stop, error.Returned) ∧
        AllReturn (games.step batch) rest

instance decidableAllReturn (games : IndexedGames) :
    (row : List (List GameChange)) -> Decidable (AllReturn games row)
  | [] => .isTrue trivial
  | batch :: rest =>
      let _ := decidableAllReturn (games.step batch) rest
      inferInstanceAs (Decidable ((∀ error ∈ (games.index.apply batch).stop, error.Returned) ∧
        AllReturn (games.step batch) rest))

/-- A soundly laid out index counts what the headers of the book say. -/
structure Mirrors (types : List EntityType) (games : IndexedGames) : Prop where
  addressed : ∃ layout, games.index.Addressed layout
  types : games.index.heads.types = types
  counted : games.index.Counted
  counts : ∀ entity game,
    numberOf (games.index.count? entity game) = timesOf games.book[game]? entity

variable {types : List EntityType} {games : IndexedGames}

theorem mirrors_new {config : Config} {index : Index} (h : new config = .ok index) :
    Mirrors config.types { index, book := ∅ } := by
  rcases new_eq_ok.mp h with ⟨_, _, hheads, _⟩
  constructor
  · exact ⟨_, addressed_new h⟩
  · rw [hheads, HeadTable.types_ofTypes]
  · intro type
    rw [hheads, HeadTable.extent_ofTypes]
    decide
  · intro entity game
    rw [(laid_new h).count?_eq]
    rfl

/-- A truthful batch that returns keeps the index a mirror of the book. -/
theorem Mirrors.step (h : Mirrors types games) {batch : List GameChange}
    (htruthful : games.book.Truthful batch)
    (hreturns : ∀ error ∈ (games.index.apply batch).stop, error.Returned) :
    Mirrors types (games.step batch) := by
  rcases h.addressed with ⟨layout, haddressed⟩
  unfold IndexedGames.step
  cases hstop : (games.index.apply batch).stop with
  | none =>
      have habsorbs := haddressed.absorbs_apply (result_eq_ok.mpr ⟨hstop, rfl⟩)
      rcases haddressed.takesPart_of_stop_eq_none hstop with ⟨hcountable, htakes⟩
      constructor
      · exact habsorbs.addressed
      · exact habsorbs.types.trans h.types
      · intro type
        exact habsorbs.extent_lt (fun _ htouched => (htakes _ htouched).next) (h.counted type)
      · intro entity game
        rw [habsorbs.counts]
        exact GameBook.numberOf_settle_lastRequest? htruthful hcountable (h.counts entity game)
  | some error =>
      have hapart := keepsApart_of_verify haddressed.verify (Touched batch)
      have hunchanged := apply_all_or_nothing h.counted hapart hstop (hreturns error hstop)
      simp only [hunchanged.left]
      exact h

theorem Mirrors.steps (h : Mirrors types games) {row : List (List GameChange)}
    (htruthful : AllTruthful games row) (hreturn : AllReturn games row) :
    Mirrors types (games.steps row) := by
  induction row generalizing games with
  | nil =>
      exact h
  | cons batch rest ih =>
      exact ih (h.step htruthful.left hreturn.left) htruthful.right hreturn.right

theorem Mirrors.postings_eq (h : Mirrors types games) {entity : Entity}
    (hmem : entity.type ∈ types) :
    (games.index.postings entity).map Posting.perGame = .ok (games.book.perGame entity) := by
  rcases h.addressed with ⟨layout, haddressed⟩
  rw [haddressed.postings_eq (h.types ▸ hmem)]
  apply congrArg Except.ok
  rw [GameBook.perGame_eq_iff (haddressed.sound entity.slot).ordered]
  intro game
  rw [← haddressed.count?_eq, h.counts]

/--
From any usable configuration an index can be built.  After every row of
truthful batches that return, the posting list of an entity shows the games whose
current headers name it, in ascending order, with how often they do.
-/
theorem postings_mirror_headers {config : Config} (husable : config.Usable) :
    ∃ index, new config = .ok index ∧
      ∀ row, AllTruthful { index, book := ∅ } row -> AllReturn { index, book := ∅ } row ->
        ∀ entity, entity.type ∈ config.types ->
          ((steps { index, book := ∅ } row).index.postings entity).map Posting.perGame =
            .ok ((steps { index, book := ∅ } row).book.perGame entity) := by
  rcases exists_new husable with ⟨index, hindex⟩
  refine ⟨index, hindex, ?_⟩
  intro row htruthful hreturn entity hmem
  exact ((mirrors_new hindex).steps htruthful hreturn).postings_eq hmem

/--
Two games are added, a batch fails for a player whose turn has not come, and
then one game changes twice in a batch that removes the other.
-/
theorem postings_mirror_headers_player :
    let game : GameHeader := { white := some 0, black := some 0, tags := [0, 0, 0] }
    let rematch : GameHeader := { white := some 0, black := some 1 }
    let row : List (List GameChange) := [
      [{ game := 7, new := some game }, { game := 4, new := some rematch }],
      [{ game := 9, new := some { white := some 3 } }],
      [{ game := 7, old := some game, new := some { white := some 1 } },
        { game := 4, old := some rematch },
        { game := 7, old := some { white := some 1 }, new := some rematch }]]
    ∃ index, new { types := [.player, .gameTag], capacity := 1 } = .ok index ∧
      AllTruthful { index, book := ∅ } row ∧ AllReturn { index, book := ∅ } row ∧
        ((steps { index, book := ∅ } row).index.postings
            { type := .player, id := 0 }).map Posting.perGame =
          .ok ((steps { index, book := ∅ } row).book.perGame { type := .player, id := 0 }) := by
  intro game rematch row
  have husable : Config.Usable { types := [.player, .gameTag], capacity := 1 } :=
    Config.fault?_eq_none.mp (by decide)
  rcases postings_mirror_headers husable with ⟨index, hindex, hmirror⟩
  let first : Index :=
    { capacity := 1
      pool := Pool.empty
      heads := HeadTable.ofTypes [.player, .gameTag]
      arena := Arena.empty
      usable := by decide }
  have hfirst : first = index := Except.ok.inj hindex
  have htruthful : AllTruthful { index := first, book := ∅ } row := by decide +kernel
  have hreturn : AllReturn { index := first, book := ∅ } row := by decide +kernel
  rw [hfirst] at htruthful hreturn
  exact ⟨index, hindex, htruthful, hreturn,
    hmirror row htruthful hreturn { type := .player, id := 0 } (by decide)⟩

end IndexedGames

end PostingIndex
