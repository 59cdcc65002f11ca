import Mathlib.Data.List.Forall2
import PostingIndex.Chain.ChangeList
import PostingIndex.Proofs.PostingCounts
import PostingIndex.Proofs.TextReading

/-!
# The grammar of written changes

A list of changes is a row of pieces with commas between them.  Every piece is blank or
holds one change: the numeral of a game, a colon and the numeral of a count, with blanks
around each numeral.  Exactly these texts are read, and a later change of a game replaces
an earlier one.

## Contents

The grammar of one change, the grammar of a list, what a list collects, and reading back
what was written.
-/

namespace PostingIndex

namespace Changes

/-!
## One change
-/

def WrittenAs (piece : List Char) (change : Change) : Prop :=
  ∃ game count gameText countText, piece = gameText ++ ':' :: countText ∧
    Decimal.Numeral game change.1 ∧ Text.Padded game gameText ∧
    Decimal.Numeral count change.2 ∧ Text.Padded count countText

theorem WrittenAs.padded {piece text : List Char} {change : Change}
    (h : WrittenAs piece change) (hpadded : Text.Padded piece text) :
    WrittenAs text change := by
  rcases h with ⟨game, count, gameText, countText, rfl, hgame, hgameText, hcount, hcountText⟩
  rcases hpadded with ⟨before, after, hbefore, hafter, rfl⟩
  refine ⟨game, count, before ++ gameText, countText ++ after, by simp, hgame, ?_, hcount, ?_⟩
  · exact hgameText.trans ⟨before, [], hbefore, nofun, by simp⟩
  · exact hcountText.trans ⟨[], after, nofun, hafter, by simp⟩

theorem writtenAs_of_parsePiece? {piece : List Char} {change : Change}
    (h : parsePiece? piece = some change) : WrittenAs piece change := by
  unfold parsePiece? at h
  split at h
  · cases h
  · next gameText countText hcut =>
      split at h
      · next game count hgame hcount =>
          rcases Option.some.inj h with rfl
          exact ⟨_, _, gameText, countText, (Text.cutAt?_eq_some_iff.mp hcut).right,
            Decimal.uint32?_eq_some_iff.mp hgame, Text.padded_trim _,
            Decimal.uint32?_eq_some_iff.mp hcount, Text.padded_trim _⟩
      · cases h

theorem not_mem_of_padded {core text : List Char} {value : UInt32} {separator : Char}
    (hcore : Decimal.Numeral core value) (h : Text.Padded core text)
    (hblank : Text.isBlank separator = false) (hdigit : separator.isDigit = false)
    (hplus : separator ≠ '+') : separator ∉ text := by
  rcases h with ⟨before, after, hbefore, hafter, rfl⟩
  intro hmem
  rcases List.mem_append.mp hmem with hmem | hmem
  · rcases List.mem_append.mp hmem with hmem | hmem
    · exact absurd (hbefore _ hmem) (by simp [hblank])
    · rcases hcore.isDigit_or_plus hmem with hcase | hcase
      · exact absurd hcase (by simp [hdigit])
      · exact hplus hcase
  · exact absurd (hafter _ hmem) (by simp [hblank])

theorem parsePiece?_trim_of_writtenAs {piece : List Char} {change : Change}
    (h : WrittenAs piece change) : parsePiece? (Text.trim piece) = some change := by
  rcases h with ⟨game, count, gameText, countText, rfl, hgame, hgameText, hcount, hcountText⟩
  have hcolon : ':' ∉ gameText :=
    not_mem_of_padded hgame hgameText (by decide) (by decide) (by decide)
  rcases hgameText with ⟨first, second, hfirst, hsecond, rfl⟩
  rcases hcountText with ⟨third, fourth, hthird, hfourth, rfl⟩
  -- Trimming takes the outer blanks only; those at the colon are left to the two sides.
  have htrim : Text.trim ((first ++ game ++ second) ++ ':' :: (third ++ count ++ fourth)) =
      (game ++ second) ++ ':' :: (third ++ count) := by
    apply Text.trim_of_padded
    · have hsolid := hgame.solid.append (second ++ ':' :: third) hcount.solid
      simpa using hsolid
    · exact ⟨first, fourth, hfirst, hfourth, by simp⟩
  have hcut : Text.cutAt? ':' ((game ++ second) ++ ':' :: (third ++ count)) =
      some (game ++ second, third ++ count) := by
    refine Text.cutAt?_eq_some_iff.mpr ⟨?_, rfl⟩
    intro hmem
    rw [List.append_assoc] at hcolon
    exact hcolon (List.mem_append_right first hmem)
  have hgameTrim : Text.trim (game ++ second) = game :=
    Text.trim_of_padded hgame.solid ⟨[], second, nofun, hsecond, rfl⟩
  have hcountTrim : Text.trim (third ++ count) = count :=
    Text.trim_of_padded hcount.solid ⟨third, [], hthird, nofun, by simp⟩
  rw [htrim, parsePiece?, hcut]
  simp only [hgameTrim, hcountTrim, Decimal.uint32?_eq_some_iff.mpr hgame,
    Decimal.uint32?_eq_some_iff.mpr hcount]

theorem parsePiece?_trim_eq_some_iff {piece : List Char} {change : Change} :
    parsePiece? (Text.trim piece) = some change ↔ WrittenAs piece change := by
  constructor
  · intro h
    exact (writtenAs_of_parsePiece? h).padded (Text.padded_trim piece)
  · exact parsePiece?_trim_of_writtenAs

/-!
## Lists of changes
-/

def filledPieces (text : List Char) : List (List Char) :=
  (text.splitOn ',').filter fun piece => ¬ Text.Blank piece

/-- A text in which the changes of a row are written one after the other. -/
def Written (text : List Char) (row : List Change) : Prop :=
  List.Forall₂ WrittenAs (filledPieces text) row

theorem isEmpty_trim (piece : List Char) :
    (Text.trim piece).isEmpty = decide (Text.Blank piece) := by
  rw [Bool.eq_iff_iff, List.isEmpty_iff, Text.trim_eq_nil_iff, decide_eq_true_iff]

theorem writtenPieces_eq (text : List Char) :
    writtenPieces text = (filledPieces text).map Text.trim := by
  rw [writtenPieces, Text.pieces_eq_splitOn, List.filter_map, filledPieces]
  congr 2
  funext piece
  rw [Function.comp_apply, isEmpty_trim, decide_not]

theorem mapM_eq_some_iff {α β : Type} {read : α -> Option β} {items : List α}
    {row : List β} :
    items.mapM read = some row ↔
      List.Forall₂ (fun item result => read item = some result) items row := by
  induction items generalizing row with
  | nil =>
      simp [eq_comm]
  | cons item rest ih =>
      rw [List.mapM_cons]
      simp only [Option.bind_eq_bind, Option.bind_eq_some_iff, Option.pure_def,
        Option.some.injEq, List.forall₂_cons_left_iff, ih]
      constructor
      · rintro ⟨result, hitem, others, hrest, heq⟩
        exact ⟨result, others, hitem, hrest, heq.symm⟩
      · rintro ⟨result, others, hitem, hrest, heq⟩
        exact ⟨result, hitem, others, hrest, heq.symm⟩

/-- Exactly the texts with changes written in them are read. -/
theorem parse?_eq_some_iff {text : String} {changes : Changes} :
    parse? text = some changes ↔ ∃ row, Written text.toList row ∧ ofList row = changes := by
  rw [parse?, Option.map_eq_some_iff, writtenPieces_eq, List.mapM_map]
  simp only [mapM_eq_some_iff, Function.comp_apply, parsePiece?_trim_eq_some_iff, Written]

theorem exists_forall₂_iff {α β : Type} {related : α -> β -> Prop} {items : List α} :
    (∃ row, List.Forall₂ related items row) ↔ ∀ item ∈ items, ∃ result, related item result := by
  induction items with
  | nil =>
      simp
  | cons item rest ih =>
      simp only [List.mem_cons, forall_eq_or_imp, ← ih, List.forall₂_cons_left_iff]
      constructor
      · rintro ⟨_, result, row, hitem, hrest, _⟩
        exact ⟨⟨result, hitem⟩, row, hrest⟩
      · rintro ⟨⟨result, hitem⟩, row, hrest⟩
        exact ⟨_, result, row, hitem, hrest, rfl⟩

theorem mem_filledPieces {text piece : List Char} :
    piece ∈ filledPieces text ↔ piece ∈ text.splitOn ',' ∧ ¬ Text.Blank piece := by
  simp [filledPieces]

/-!
## What a list collects
-/

theorem getElem?_foldl_change (row : List Change) (start : Changes) (game : GameId) :
    (row.foldl (fun changes change => changes.insert change.1 change.2) start)[game]? =
      (row.reverse.lookup game).or start[game]? := by
  induction row generalizing start with
  | nil =>
      rfl
  | cons change row ih =>
      rw [List.foldl_cons, ih, Std.TreeMap.getElem?_insert, List.reverse_cons,
        List.lookup_append, Option.or_assoc]
      rcases change with ⟨other, count⟩
      by_cases heq : other = game
      · subst heq
        simp
      · have hcmp : compare other game ≠ .eq := fun hsame =>
          heq (Std.LawfulEqOrd.eq_of_compare hsame)
        have hne : (game == other) = false := by simpa using Ne.symm heq
        simp [List.lookup_cons, hcmp, hne]

theorem getElem?_ofList (row : List Change) (game : GameId) :
    (ofList row)[game]? = row.reverse.lookup game := by
  rw [ofList, getElem?_foldl_change]
  simp

theorem ofList_equiv {row : List Change} {changes : Changes} (h : row.Perm changes.toList) :
    (ofList row).Equiv changes := by
  apply Std.TreeMap.Equiv.of_forall_constGet?_eq
  intro game
  have hperm : row.reverse.Perm changes.toList := (List.reverse_perm row).trans h
  have hdistinct : row.reverse.Pairwise fun left right => left.1 ≠ right.1 := by
    have hlisted := (ascendingChanges_toList changes).imp UInt32.ne_of_lt
    exact (hperm.pairwise_iff fun hne => Ne.symm hne).mpr hlisted
  apply Option.ext
  intro count
  rw [getElem?_ofList, Posting.lookup_eq_some_iff hdistinct, hperm.mem_iff,
    Std.TreeMap.mem_toList_iff_getElem?_eq_some]

/-!
## Reading back
-/

/-- A change in plain digits, with blanks around each number. -/
def SpelledAs (piece : List Char) (change : Change) : Prop :=
  ∃ game count, piece = game ++ ':' :: count ∧
    Text.Padded (Nat.toDigits 10 change.1.toNat) game ∧
    Text.Padded (Nat.toDigits 10 change.2.toNat) count

theorem SpelledAs.writtenAs {piece : List Char} {change : Change} (h : SpelledAs piece change) :
    WrittenAs piece change := by
  rcases h with ⟨game, count, rfl, hgame, hcount⟩
  exact ⟨_, _, game, count, rfl, Decimal.numeral_toDigits _, hgame,
    Decimal.numeral_toDigits _, hcount⟩

theorem WrittenAs.comma_not_mem {piece : List Char} {change : Change}
    (h : WrittenAs piece change) : ',' ∉ piece := by
  rcases h with ⟨game, count, gameText, countText, rfl, hgame, hgameText, hcount, hcountText⟩
  intro hmem
  rcases List.mem_append.mp hmem with hmem | hmem
  · exact not_mem_of_padded hgame hgameText (by decide) (by decide) (by decide) hmem
  · rcases List.mem_cons.mp hmem with heq | hmem
    · exact absurd heq (by decide)
    · exact not_mem_of_padded hcount hcountText (by decide) (by decide) (by decide) hmem

theorem filledPieces_intercalate {pieces : List (List Char)}
    (h : ∀ piece ∈ pieces, ',' ∉ piece) :
    filledPieces ([','].intercalate pieces) =
      pieces.filter fun piece => ¬ Text.Blank piece := by
  cases pieces with
  | nil =>
      rfl
  | cons piece rest =>
      rw [filledPieces, List.splitOn_intercalate ',' h (List.cons_ne_nil _ _)]

theorem exists_parse?_of_spelled {changes : Changes} {row : List Change}
    {pieces : List (List Char)} (hrow : row.Perm changes.toList)
    (hpieces : List.Forall₂ SpelledAs
      (pieces.filter fun piece => ¬ Text.Blank piece) row) :
    ∃ found, parse? (String.ofList ([','].intercalate pieces)) = some found ∧
      found.Equiv changes := by
  have hwritten := hpieces.imp fun _ _ hspelled => hspelled.writtenAs
  have hcomma : ∀ piece ∈ pieces, ',' ∉ piece := by
    intro piece hmem
    by_cases hblank : Text.Blank piece
    · intro hcomma
      exact absurd (hblank _ hcomma) (by decide)
    · have hfilled : piece ∈ pieces.filter fun piece => ¬ Text.Blank piece :=
        List.mem_filter.mpr ⟨hmem, by simpa using hblank⟩
      rcases exists_forall₂_iff.mp ⟨row, hwritten⟩ piece hfilled with ⟨change, hchange⟩
      exact hchange.comma_not_mem
  refine ⟨ofList row, parse?_eq_some_iff.mpr ⟨row, ?_, rfl⟩, ofList_equiv hrow⟩
  rw [Written, String.toList_ofList, filledPieces_intercalate hcomma]
  exact hwritten

/--
A text is read if and only if each of its pieces between commas is blank or holds a
written change; one other piece anywhere makes it unreadable.  What is read gives each
game the count of the last change of it and holds nothing else.  In particular, whatever
map of changes is spelled out in pieces, in any order, with blanks around its numbers and
with blank pieces anywhere, is read back.
-/
theorem read_exactly_as_written (text : String) :
    ((∃ changes, parse? text = some changes) ↔
      ∀ piece ∈ text.toList.splitOn ',',
        Text.Blank piece ∨ ∃ change, WrittenAs piece change) ∧
    (∀ changes, parse? text = some changes ->
      (∃ row, Written text.toList row) ∧
        ∀ row, Written text.toList row ->
          ∀ game : GameId, changes[game]? = row.reverse.lookup game) ∧
    (∀ piece ∈ text.toList.splitOn ',', ¬ Text.Blank piece ->
      (∀ change, ¬ WrittenAs piece change) -> parse? text = none) ∧
    ∀ (changes : Changes) (row : List Change) (pieces : List (List Char)),
      row.Perm changes.toList ->
      List.Forall₂ SpelledAs (pieces.filter fun piece => ¬ Text.Blank piece) row ->
      text = String.ofList ([','].intercalate pieces) ->
        ∃ found, parse? text = some found ∧ found.Equiv changes := by
  have haccepted : (∃ changes, parse? text = some changes) ↔
      ∀ piece ∈ text.toList.splitOn ',',
        Text.Blank piece ∨ ∃ change, WrittenAs piece change := by
    have hrow : (∃ changes, parse? text = some changes) ↔ ∃ row, Written text.toList row := by
      simp only [parse?_eq_some_iff]
      exact ⟨fun ⟨_, row, h, _⟩ => ⟨row, h⟩, fun ⟨row, h⟩ => ⟨_, row, h, rfl⟩⟩
    simp only [hrow, Written, exists_forall₂_iff, mem_filledPieces, and_imp,
      or_iff_not_imp_left]
  refine ⟨haccepted, ?_, ?_, ?_⟩
  · intro changes h
    rcases parse?_eq_some_iff.mp h with ⟨row, hrow, _⟩
    refine ⟨⟨row, hrow⟩, ?_⟩
    intro other hother game
    have hsame := parse?_eq_some_iff.mpr ⟨other, hother, rfl⟩
    rw [← Option.some.inj (hsame.symm.trans h), getElem?_ofList]
  · intro piece hmem hblank hbad
    cases hparse : parse? text with
    | none =>
        rfl
    | some changes =>
        rcases haccepted.mp ⟨changes, hparse⟩ piece hmem with hcase | ⟨change, hchange⟩
        · exact absurd hcase hblank
        · exact absurd hchange (hbad change)
  · rintro changes row pieces hrow hpieces rfl
    exact exists_parse?_of_spelled hrow hpieces

/--
Two changes are read back out of order and with blanks around them.  With a piece that
has no colon, nothing is read.
-/
theorem read_exactly_as_written_two_changes :
    let changes := ofList [(2, 3), (7, 1)]
    let pieces := [" 7:1 ".toList, [], " 2 :3".toList]
    let bad := "7-1".toList
    ([(7, 1), (2, 3)].Perm changes.toList ∧
      List.Forall₂ SpelledAs (pieces.filter fun piece => ¬ Text.Blank piece)
        [(7, 1), (2, 3)] ∧
      ∃ found, parse? (String.ofList ([','].intercalate pieces)) = some found ∧
        found.Equiv changes) ∧
    bad ∈ "2:1,7-1".toList.splitOn ',' ∧ ¬ Text.Blank bad ∧
      (∀ change, ¬ WrittenAs bad change) ∧ parse? "2:1,7-1" = none := by
  intro changes pieces bad
  have hperm : [(7, 1), (2, 3)].Perm changes.toList := by
    have hlist : changes.toList = [(2, 3), (7, 1)] := by decide +kernel
    rw [hlist]
    exact List.Perm.swap _ _ _
  have hspelled : List.Forall₂ SpelledAs
      (pieces.filter fun piece => ¬ Text.Blank piece) [(7, 1), (2, 3)] := by
    have hfilled : (pieces.filter fun piece => ¬ Text.Blank piece) =
        [" 7:1 ".toList, " 2 :3".toList] := by decide +kernel
    rw [hfilled]
    refine .cons ⟨" 7".toList, "1 ".toList, rfl, ?_, ?_⟩
      (.cons ⟨" 2 ".toList, "3".toList, rfl, ?_, ?_⟩ .nil)
    · exact ⟨[' '], [], by decide, by decide, rfl⟩
    · exact ⟨[], [' '], by decide, by decide, rfl⟩
    · exact ⟨[' '], [' '], by decide, by decide, rfl⟩
    · exact ⟨[], [], by decide, by decide, rfl⟩
  have hmem : bad ∈ "2:1,7-1".toList.splitOn ',' := by decide +kernel
  have hblank : ¬ Text.Blank bad := by decide
  have hbad : ∀ change, ¬ WrittenAs bad change := by
    intro change hchange
    have hread := parsePiece?_trim_of_writtenAs hchange
    have hnone : parsePiece? (Text.trim bad) = none := by decide +kernel
    rw [hnone] at hread
    cases hread
  rcases read_exactly_as_written (String.ofList ([','].intercalate pieces)) with
    ⟨_, _, _, hback⟩
  rcases read_exactly_as_written "2:1,7-1" with ⟨_, _, hnone, _⟩
  exact ⟨⟨hperm, hspelled, hback changes _ pieces hperm hspelled rfl⟩, hmem, hblank, hbad,
    hnone bad hmem hblank hbad⟩

end Changes

end PostingIndex
