import PostingIndex.Proofs.TableCodec

/-!
# The bytes of head tables

A head table that bytes can describe has one row of bytes, and nothing else is parsed
into it.  Bytes that end before the last catalogue does are truncated.  Bytes that go on
behind it are corrupt where they go on, and so are bytes with a tag that is unknown or
was there before.

## Contents

The heads and catalogues that are parsed, the bytes of a table with others behind them,
bytes that were cut off, and the tables that are parsed from some bytes.
-/

namespace PostingIndex

theorem EntityType.ofTag?_eq_some {byte : UInt8} {type : EntityType} :
    ofTag? byte = some type ↔ type.tag = byte := by
  constructor
  · intro h
    simpa using List.find?_some h
  · rintro rfl
    exact ofTag?_tag type

namespace HeadTable

theorem writable_nil : Writable { rows := [] } where
  distinct := List.nodup_nil
  short := fun _ hmem => by cases hmem
  linked := fun _ hmem => by cases hmem

theorem Writable.snoc {rows : List HeadRow} {row : HeadRow} (h : Writable { rows })
    (hnew : row.type ∉ rows.map HeadRow.type) (hshort : row.heads.size < 2 ^ 32)
    (hlinked : ∀ head ∈ row.heads, head ≠ some Link.noBlock) :
    Writable { rows := rows ++ [row] } where
  distinct := by
    show ((rows ++ [row]).map HeadRow.type).Nodup
    rw [List.map_append]
    refine List.nodup_append.mpr ⟨h.distinct, List.pairwise_singleton _ _, ?_⟩
    intro type hmem other hother heq
    exact hnew (List.mem_singleton.mp hother ▸ heq ▸ hmem)
  short := by
    intro other hmem
    rcases List.mem_append.mp hmem with hmem | hmem
    · exact h.short other hmem
    · rw [List.mem_singleton.mp hmem]
      exact hshort
  linked := by
    intro other hmem
    rcases List.mem_append.mp hmem with hmem | hmem
    · exact h.linked other hmem
    · rw [List.mem_singleton.mp hmem]
      exact hlinked

end HeadTable

namespace HeadSection

/-!
## What is parsed
-/

theorem exists_links_of_readHeads {heads found : Array (Option BlockId)} {count : Nat}
    {input rest : List UInt8} (h : readHeads heads count input = some (found, rest)) :
    ∃ links : List (Option BlockId),
      links.length = count ∧ found = heads ++ links.toArray ∧
        (∀ link ∈ links, link ≠ some Link.noBlock) ∧
          input = (links.flatMap fun link =>
            LittleEndian.bytes 4 (Link.word link).toNat) ++ rest := by
  induction count generalizing heads input with
  | zero =>
      simp only [readHeads, Option.some.injEq, Prod.mk.injEq] at h
      exact ⟨[], rfl, by simp [h.left], by simp, by simp [h.right]⟩
  | succ count ih =>
      rw [readHeads] at h
      cases hread : LittleEndian.read? 4 input with
      | none =>
          simp [hread] at h
      | some pair =>
          rcases pair with ⟨word, after⟩
          simp only [hread] at h
          rcases LittleEndian.eq_bytes_of_read? hread with ⟨hlt, rfl⟩
          rcases ih h with ⟨links, hlength, rfl, hlinked, rfl⟩
          have hword : (UInt32.ofNat word).toNat = word := UInt32.toNat_ofNat_of_lt' hlt
          refine ⟨Link.ofWord (UInt32.ofNat word) :: links, by rw [List.length_cons, hlength],
            by simp, ?_, ?_⟩
          · intro link hmem
            rcases List.mem_cons.mp hmem with heq | hmem
            · rw [heq]
              exact Link.ofWord_ne_noBlock _
            · exact hlinked link hmem
          · rw [List.flatMap_cons, Link.word_ofWord, hword, List.append_assoc]

theorem cons_eq_encodeRow_append {known : Nat} {rest after behind : List UInt8}
    {heads : Array (Option BlockId)} (hread : LittleEndian.read? 4 rest = some (known, after))
    (hheads : readHeads #[] known after = some (heads, behind)) (type : EntityType) :
    heads.size < 2 ^ 32 ∧ (∀ head ∈ heads, head ≠ some Link.noBlock) ∧
      type.tag :: rest = encodeRow type heads ++ behind := by
  rcases LittleEndian.eq_bytes_of_read? hread with ⟨hlt, rfl⟩
  rcases exists_links_of_readHeads hheads with ⟨links, rfl, rfl, hlinked, rfl⟩
  rw [Array.empty_append]
  refine ⟨hlt, fun head hmem => hlinked head (List.mem_toArray.mp hmem), ?_⟩
  simp [encodeRow]

theorem encode_snoc {rows : List HeadRow} {row : HeadRow}
    (h : HeadTable.Writable { rows := rows ++ [row] }) :
    encode { rows := rows ++ [row] } =
      encode { rows } ++ encodeRow row.type row.heads := by
  have hrows : (rows.map HeadRow.type).Nodup :=
    h.distinct.sublist ((List.sublist_append_left rows [row]).map HeadRow.type)
  rw [encode_eq h.distinct, encode_eq hrows, List.flatMap_append, List.flatMap_singleton]

/--
The table that is parsed behind some rows can be written, and its bytes are those of the
rows and the ones that it was parsed from.
-/
theorem writable_of_parseRows {done : List HeadRow} {position count : Nat}
    {input : List UInt8} {table : HeadTable}
    (hdone : HeadTable.Writable { rows := done.reverse })
    (h : parseRows done position count input = .ok table) :
    table.Writable ∧ table.rows.length = done.length + count ∧
      encode table = encode { rows := done.reverse } ++ input := by
  induction count generalizing done position input with
  | zero =>
      rcases parseRows_zero_eq_ok.mp h with ⟨rfl, rfl⟩
      exact ⟨hdone, List.length_reverse, (List.append_nil _).symm⟩
  | succ count ih =>
      rcases parseRows_succ_eq_ok.mp h with
        ⟨tag, rest, type, known, after, heads, behind, rfl, htag, hnew, hread, hheads, hrest⟩
      rw [← EntityType.ofTag?_eq_some.mp htag]
      rcases cons_eq_encodeRow_append hread hheads type with ⟨hshort, hlinked, hbytes⟩
      let row : HeadRow := { type, heads }
      have hnext : HeadTable.Writable { rows := done.reverse ++ [row] } :=
        hdone.snoc (by simpa using hnew) hshort hlinked
      have hreverse : (row :: done).reverse = done.reverse ++ [row] := List.reverse_cons
      rcases ih (hreverse ▸ hnext) hrest with ⟨hwritable, hlength, hencode⟩
      refine ⟨hwritable, ?_, ?_⟩
      · rw [hlength, List.length_cons, Nat.add_right_comm, Nat.add_assoc]
      · rw [hencode, hreverse, encode_snoc hnext, hbytes, List.append_assoc]

theorem parse_eq_ok {count : Nat} {input : List UInt8} {table : HeadTable} :
    parse count input = .ok table ↔
      table.types.length = count ∧ table.Writable ∧ encode table = input := by
  constructor
  · intro h
    have hnil : HeadTable.Writable { rows := ([] : List HeadRow).reverse } :=
      HeadTable.writable_nil
    rcases writable_of_parseRows hnil h with ⟨hwritable, hlength, hencode⟩
    refine ⟨?_, hwritable, hencode⟩
    rw [HeadTable.types, List.length_map, hlength, List.length_nil, Nat.zero_add]
  · rintro ⟨rfl, hwritable, rfl⟩
    rw [parse_encode hwritable.distinct hwritable.short, hwritable.map_reread]

/-!
## Bytes behind a table
-/

theorem parse_encode_append {table : HeadTable} (h : table.Writable) (count : Nat)
    (tail : List UInt8) :
    parse (table.types.length + count) (encode table ++ tail) =
      parseRows table.rows.reverse (encode table).length count tail := by
  have hnodup : (([] : List HeadRow).map HeadRow.type ++
      table.rows.map HeadRow.type).Nodup := h.distinct
  have hrows := parseRows_append hnodup h.short 0 count tail
  rw [h.map_reread, List.append_nil, Nat.zero_add, ← encode_eq h.distinct] at hrows
  rw [parse, HeadTable.types, List.length_map, hrows]

theorem parse_encode_append_of_ne_nil {table : HeadTable} (h : table.Writable)
    {tail : List UInt8} (hne : tail ≠ []) :
    parse table.types.length (encode table ++ tail) =
      .error (.corruptData (encode table).length) := by
  have hparse := parse_encode_append h 0 tail
  rw [Nat.add_zero] at hparse
  rw [hparse]
  cases tail with
  | nil =>
      exact absurd rfl hne
  | cons byte rest =>
      rfl

theorem parse_encode_append_tag {table : HeadTable} (h : table.Writable) {count : Nat}
    (hlt : table.types.length < count) {tag : UInt8}
    (htag : ∀ type, EntityType.ofTag? tag = some type -> type ∈ table.types)
    (rest : List UInt8) :
    parse count (encode table ++ tag :: rest) =
      .error (.corruptData (encode table).length) := by
  rcases Nat.exists_eq_add_of_lt hlt with ⟨more, rfl⟩
  rw [Nat.add_assoc, parse_encode_append h, parseRows]
  cases hof : EntityType.ofTag? tag with
  | none =>
      rfl
  | some type =>
      have hmem : type ∈ table.rows.reverse.map HeadRow.type := by
        rw [List.map_reverse, List.mem_reverse]
        exact htag type hof
      simp only [hmem, if_true]

/-!
## Bytes that were cut off
-/

theorem readHeads_append_more {heads found : Array (Option BlockId)} {count : Nat}
    {input rest : List UInt8} (h : readHeads heads count input = some (found, rest))
    (more : List UInt8) : readHeads heads count (input ++ more) = some (found, rest ++ more) := by
  induction count generalizing heads input with
  | zero =>
      simp only [readHeads, Option.some.injEq, Prod.mk.injEq] at h ⊢
      exact ⟨h.left, by rw [h.right]⟩
  | succ count ih =>
      rw [readHeads] at h ⊢
      cases hread : LittleEndian.read? 4 input with
      | none =>
          simp [hread] at h
      | some pair =>
          simp only [hread] at h
          simp only [LittleEndian.read?_append hread]
          exact ih h

theorem parseRows_of_append {rows : List HeadRow} {position count : Nat}
    {front rest : List UInt8} {table : HeadTable}
    (h : parseRows rows position count (front ++ rest) = .ok table) (hne : rest ≠ []) :
    parseRows rows position count front = .error .truncated := by
  induction count generalizing rows position front with
  | zero =>
      exact absurd (List.append_eq_nil_iff.mp (parseRows_zero_eq_ok.mp h).left).right hne
  | succ count ih =>
      rcases parseRows_succ_eq_ok.mp h with
        ⟨tag, behindTag, type, known, after, heads, behind, hinput, htag, hnew, hread, hheads,
          hrest⟩
      cases front with
      | nil =>
          rfl
      | cons byte front =>
          rw [List.cons_append, List.cons.injEq] at hinput
          rcases hinput with ⟨rfl, rfl⟩
          simp only [parseRows, htag, hnew, if_false]
          -- The cut is in the count, in the heads, or behind them.
          cases hcount : LittleEndian.read? 4 front with
          | none =>
              rfl
          | some pair =>
              rcases pair with ⟨found, front⟩
              rw [LittleEndian.read?_append hcount] at hread
              cases hread
              cases hlinks : readHeads #[] known front with
              | none =>
                  simp only [hlinks]
              | some pair =>
                  rcases pair with ⟨links, front⟩
                  rw [readHeads_append_more hlinks] at hheads
                  cases hheads
                  simp only [hlinks]
                  exact ih hrest

/-!
## Tables and their bytes
-/

/--
Bytes are parsed as a table of so many catalogues exactly if they are the bytes of this
table, which has distinct catalogues, extents of 32 bits and no head with the reserved
number.  So they are the only ones that are parsed into it.  Without some bytes at their
end they are truncated, and with bytes behind them they are corrupt at their end.  Bytes
are corrupt as well where a tag is unknown or repeats a catalogue.
-/
theorem parse_exactly_encodings :
    (∀ count input table, parse count input = .ok table ↔
      table.types.length = count ∧ table.Writable ∧ encode table = input) ∧
    (∀ count count' input input' table, parse count input = .ok table ->
      parse count' input' = .ok table -> input = input') ∧
    (∀ count input rest table, parse count (input ++ rest) = .ok table -> rest ≠ [] ->
      parse count input = .error .truncated) ∧
    (∀ count input rest table, parse count input = .ok table -> rest ≠ [] ->
      parse count (input ++ rest) = .error (.corruptData input.length)) ∧
    ∀ count table tag rest, table.Writable -> table.types.length < count ->
      (∀ type, EntityType.ofTag? tag = some type -> type ∈ table.types) ->
        parse count (encode table ++ tag :: rest) =
          .error (.corruptData (encode table).length) := by
  refine ⟨fun count input table => parse_eq_ok, ?_, ?_, ?_, ?_⟩
  · intro count count' input input' table h h'
    exact (parse_eq_ok.mp h).right.right.symm.trans (parse_eq_ok.mp h').right.right
  · intro count input rest table h hne
    exact parseRows_of_append h hne
  · intro count input rest table h hne
    rcases parse_eq_ok.mp h with ⟨rfl, hwritable, rfl⟩
    exact parse_encode_append_of_ne_nil hwritable hne
  · intro count table tag rest hwritable hlt htag
    exact parse_encode_append_tag hwritable hlt htag rest

end HeadSection

end PostingIndex
