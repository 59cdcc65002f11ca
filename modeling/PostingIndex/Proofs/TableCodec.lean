import PostingIndex.File.HeadSection
import PostingIndex.Proofs.HeaderCodec
import PostingIndex.Proofs.Slots

/-!
# Reading back what was written: head tables

## Contents

Tables that can be written, the bytes of a table row by row, and the table that
is parsed from them.
-/

namespace PostingIndex

def HeadRow.reread (row : HeadRow) : HeadRow :=
  { row with heads := row.heads.map fun head => Link.ofWord (Link.word head) }

@[simp]
theorem HeadRow.type_reread (row : HeadRow) : row.reread.type = row.type :=
  rfl

theorem HeadRow.reread_of_forall_ne {row : HeadRow}
    (h : ∀ head ∈ row.heads, head ≠ some Link.noBlock) : row.reread = row := by
  have hheads : row.heads.map (fun head => Link.ofWord (Link.word head)) = row.heads.map id :=
    Array.map_congr_left fun head hmem => Link.ofWord_word (h head hmem)
  rw [reread, hheads, Array.map_id]

/-- A table that bytes can describe. -/
structure HeadTable.Writable (table : HeadTable) : Prop where
  distinct : table.types.Nodup
  short : ∀ row ∈ table.rows, row.heads.size < 2 ^ 32
  linked : ∀ row ∈ table.rows, ∀ head ∈ row.heads, head ≠ some Link.noBlock

theorem HeadTable.Writable.map_reread {table : HeadTable} (h : table.Writable) :
    table.rows.map HeadRow.reread = table.rows :=
  (List.map_congr_left fun row hmem =>
    HeadRow.reread_of_forall_ne (h.linked row hmem)).trans (List.map_id _)

namespace HeadSection

theorem encode_eq {table : HeadTable} (h : table.types.Nodup) :
    encode table = table.rows.flatMap fun row => encodeRow row.type row.heads := by
  rw [encode, HeadTable.types, List.flatMap_map]
  apply List.flatMap_congr
  intro row hmem
  rw [HeadTable.heads?_eq_of_mem h hmem]

theorem length_encodeRow (type : EntityType) (heads : Array (Option BlockId)) :
    (encodeRow type heads).length = 5 + 4 * heads.size := by
  have hlinks : ∀ links : List (Option BlockId),
      (links.flatMap fun head => LittleEndian.bytes 4 (Link.word head).toNat).length =
        4 * links.length := by
    intro links
    induction links with
    | nil =>
        rfl
    | cons link rest ih =>
        simp only [List.flatMap_cons, List.length_append, LittleEndian.length_bytes, ih,
          List.length_cons]
        omega
  simp only [encodeRow, List.length_cons, List.length_append, LittleEndian.length_bytes,
    hlinks, Array.length_toList]
  omega

theorem size_le_length_encode {table : HeadTable} (h : table.types.Nodup) {row : HeadRow}
    (hmem : row ∈ table.rows) : row.heads.size ≤ (encode table).length := by
  rw [encode_eq h]
  have hsub : (encodeRow row.type row.heads).Sublist
      (table.rows.flatMap fun row => encodeRow row.type row.heads) := by
    rw [List.flatMap_def]
    exact List.sublist_flatten_of_mem (List.mem_map.mpr ⟨row, hmem, rfl⟩)
  have hle := hsub.length_le
  rw [length_encodeRow] at hle
  omega

theorem readHeads_append (links : List (Option BlockId)) (heads : Array (Option BlockId))
    (rest : List UInt8) :
    readHeads heads links.length
        ((links.flatMap fun link => LittleEndian.bytes 4 (Link.word link).toNat) ++ rest) =
      some (heads ++ (links.map fun link => Link.ofWord (Link.word link)).toArray, rest) := by
  induction links generalizing heads with
  | nil =>
      simp [readHeads]
  | cons link others ih =>
      rw [List.flatMap_cons, List.append_assoc, List.length_cons, readHeads,
        LittleEndian.read?_word32]
      simp only [UInt32.ofNat_toNat]
      rw [ih]
      simp

theorem parseRows_zero_eq_ok {rows : List HeadRow} {position : Nat} {input : List UInt8}
    {table : HeadTable} :
    parseRows rows position 0 input = .ok table ↔
      input = [] ∧ table = { rows := rows.reverse } := by
  cases input with
  | nil =>
      simp [parseRows, eq_comm]
  | cons byte rest =>
      simp [parseRows]

theorem parseRows_succ_eq_ok {rows : List HeadRow} {position count : Nat}
    {input : List UInt8} {table : HeadTable} :
    parseRows rows position (count + 1) input = .ok table ↔
      ∃ tag rest type known after heads behind,
        input = tag :: rest ∧ EntityType.ofTag? tag = some type ∧
          type ∉ rows.map HeadRow.type ∧
          LittleEndian.read? 4 rest = some (known, after) ∧
          readHeads #[] known after = some (heads, behind) ∧
          parseRows ({ type, heads } :: rows) (position + 5 + 4 * known) count behind =
            .ok table := by
  constructor
  · intro h
    cases input with
    | nil =>
        cases h
    | cons tag rest =>
        rw [parseRows] at h
        split at h
        · cases h
        · next type htype =>
            split at h
            · cases h
            · next hnew =>
                split at h
                · cases h
                · next known after hread =>
                    split at h
                    · cases h
                    · next heads behind hheads =>
                        exact ⟨tag, rest, type, known, after, heads, behind, rfl, htype,
                          hnew, hread, hheads, h⟩
  · rintro ⟨tag, rest, type, known, after, heads, behind, rfl, htype, hnew, hread, hheads, h⟩
    simp only [parseRows, htype, hnew, hread, hheads, if_false]
    exact h

theorem parseRows_append {done rows : List HeadRow}
    (hdistinct : (done.map HeadRow.type ++ rows.map HeadRow.type).Nodup)
    (hshort : ∀ row ∈ rows, row.heads.size < 2 ^ 32) (position count : Nat)
    (tail : List UInt8) :
    parseRows done position (rows.length + count)
        ((rows.flatMap fun row => encodeRow row.type row.heads) ++ tail) =
      parseRows ((rows.map HeadRow.reread).reverse ++ done)
        (position + (rows.flatMap fun row => encodeRow row.type row.heads).length) count
        tail := by
  induction rows generalizing done position with
  | nil =>
      simp
  | cons row rest ih =>
      have hnew : row.type ∉ done.map HeadRow.type := by
        intro hmem
        exact (List.nodup_append.mp hdistinct).right.right row.type hmem row.type (by simp)
          rfl
      have hrest : ((row.reread :: done).map HeadRow.type ++ rest.map HeadRow.type).Nodup :=
        (List.perm_middle.nodup_iff).mp (by simpa using hdistinct)
      have hheads : readHeads #[] row.heads.size
          ((row.heads.toList.flatMap fun link =>
            LittleEndian.bytes 4 (Link.word link).toNat) ++
              ((rest.flatMap fun row => encodeRow row.type row.heads) ++ tail)) =
          some (row.reread.heads,
            (rest.flatMap fun row => encodeRow row.type row.heads) ++ tail) := by
        have hread := readHeads_append row.heads.toList #[]
          ((rest.flatMap fun row => encodeRow row.type row.heads) ++ tail)
        rw [← Array.toList_map, Array.toArray_toList, Array.empty_append,
          Array.length_toList] at hread
        exact hread
      have hposition : position + 5 + 4 * row.heads.size =
          position + (encodeRow row.type row.heads).length := by
        rw [length_encodeRow, Nat.add_assoc]
      rw [List.flatMap_cons, List.length_append, ← Nat.add_assoc, ← hposition, encodeRow,
        List.length_cons, Nat.add_right_comm, List.append_assoc, List.cons_append,
        List.append_assoc, parseRows, EntityType.ofTag?_tag]
      simp only [hnew, if_false]
      rw [LittleEndian.read?_bytes_of_lt (hshort row (by simp))]
      simp only [hheads]
      show parseRows (row.reread :: done) _ _ _ = _
      rw [ih hrest fun other hmem => hshort other (List.mem_cons_of_mem _ hmem)]
      simp

/-- A table is parsed from its bytes, with the heads that these can tell from none. -/
theorem parse_encode {table : HeadTable} (hdistinct : table.types.Nodup)
    (hshort : ∀ row ∈ table.rows, row.heads.size < 2 ^ 32) :
    parse table.types.length (encode table) =
      .ok { rows := table.rows.map HeadRow.reread } := by
  have hnodup : (([] : List HeadRow).map HeadRow.type ++
      table.rows.map HeadRow.type).Nodup := hdistinct
  have hrows := parseRows_append hnodup hshort 0 0 []
  rw [List.append_nil, List.append_nil, Nat.add_zero] at hrows
  rw [encode_eq hdistinct, parse, HeadTable.types, List.length_map, hrows]
  simp [parseRows]

end HeadSection

end PostingIndex
