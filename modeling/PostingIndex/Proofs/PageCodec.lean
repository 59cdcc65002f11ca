import PostingIndex.File.Page
import PostingIndex.Proofs.HeaderCodec

/-!
# Reading back what was written: pages

## Contents

The length of a page, the postings read from the bytes of postings, the bytes of a page
with anything in the parts that it leaves open, the page that is parsed from them, and
what can be parsed.
-/

namespace PostingIndex

namespace Page

@[simp]
theorem body_cons (posting : Posting) (rest : List Posting) :
    body (posting :: rest) =
      LittleEndian.bytes 4 posting.game.toNat ++
        (LittleEndian.bytes 4 posting.count.toNat ++ body rest) := by
  simp [body]

theorem length_body (postings : List Posting) :
    (body postings).length = postings.length * postingSize := by
  induction postings with
  | nil =>
      rfl
  | cons posting rest ih =>
      simp only [body_cons, List.length_append, LittleEndian.length_bytes, ih,
        List.length_cons, postingSize]
      omega

theorem length_encode {capacity : Nat} {page : Page}
    (h : page.block.postings.length ≤ capacity) :
    (encode capacity page).length = size capacity := by
  simp only [encode, List.length_append, LittleEndian.length_bytes, length_body,
    List.length_replicate, size, headerSize]
  rw [← Nat.add_mul, Nat.add_sub_cancel' h]
  omega

theorem readPostings_body (read postings : List Posting) (rest : List UInt8) :
    readPostings read postings.length (body postings ++ rest) =
      some (read.reverse ++ postings) := by
  induction postings generalizing read with
  | nil =>
      simp [readPostings]
  | cons posting others ih =>
      simp only [body_cons, List.append_assoc, List.length_cons, readPostings,
        LittleEndian.read?_word32, UInt32.ofNat_toNat, ih]
      simp

/--
The bytes of a page with any flags, any bytes of the reserved word and any bytes behind
the postings.
-/
def bytesWith (page : Page) (flags : Nat) (reserved padding : List UInt8) : List UInt8 :=
  LittleEndian.bytes 4 (Link.word page.block.next).toNat ++
    (LittleEndian.bytes 2 page.block.postings.length ++
      (LittleEndian.bytes 2 flags ++
        (LittleEndian.bytes 4 (Crc32.checksum (body page.block.postings)).toNat ++
          (reserved ++ (body page.block.postings ++ padding)))))

theorem encode_eq_bytesWith (capacity : Nat) (page : Page) :
    encode capacity page =
      page.bytesWith (if page.free then 1 else 0) (LittleEndian.bytes 4 0)
        (List.replicate ((capacity - page.block.postings.length) * postingSize) 0) :=
  rfl

def fieldsOf (page : Page) (flags : Nat) : Fields where
  next := Link.word page.block.next
  length := page.block.postings.length
  flags := flags
  checksum := Crc32.checksum (body page.block.postings)

theorem readFields?_bytesWith {page : Page} {flags : Nat}
    (hlength : page.block.postings.length < 256 ^ 2) (hflags : flags < 256 ^ 2)
    (reserved padding : List UInt8) :
    readFields? (page.bytesWith flags reserved padding) =
      some (page.fieldsOf flags, reserved ++ (body page.block.postings ++ padding)) := by
  simp [readFields?, bytesWith, fieldsOf, LittleEndian.read?_bytes_of_lt hlength,
    LittleEndian.read?_bytes_of_lt hflags]

theorem readBody?_append (postings : List Posting) {reserved : List UInt8}
    (hreserved : reserved.length = 4) (padding : List UInt8) :
    readBody? postings.length (reserved ++ (body postings ++ padding)) =
      some (body postings) := by
  have henough : 4 ≤ (reserved ++ (body postings ++ padding)).length := by
    rw [List.length_append, hreserved]
    exact Nat.le_add_right _ _
  rcases LittleEndian.exists_read? henough with ⟨value, hread⟩
  rw [readBody?, hread, List.drop_left' hreserved]
  simp [List.take_left' (length_body postings), length_body]

/-- The page that is read back; a link to the reserved number comes back as none. -/
def reread (page : Page) : Page :=
  { page with block.next := Link.ofWord (Link.word page.block.next) }

theorem reread_of_ne {page : Page} (h : page.block.next ≠ some Link.noBlock) :
    page.reread = page := by
  rw [reread, Link.ofWord_word h]

theorem parse_bytesWith {page : Page} {capacity flags : Nat} {reserved : List UInt8}
    (id : BlockId) (hcapacity : capacity < 256 ^ 2)
    (hfits : page.block.postings.length ≤ capacity) (hflags : flags < 256 ^ 2)
    (hreserved : reserved.length = 4) (padding : List UInt8) :
    parse id capacity (page.bytesWith flags reserved padding) =
      .ok { page.reread with free := flags % 2 = 1 } := by
  have hpostings := readPostings_body [] page.block.postings []
  rw [List.append_nil] at hpostings
  rw [parse, readFields?_bytesWith (Nat.lt_of_le_of_lt hfits hcapacity) hflags]
  simp only [fieldsOf, Nat.not_lt.mpr hfits, if_false, readBody?_append _ hreserved, hpostings,
    reread, ne_eq, not_true_eq_false, List.reverse_nil, List.nil_append]
  rfl

theorem parse_encode {capacity : Nat} {page : Page} (id : BlockId)
    (hcapacity : capacity < 256 ^ 2) (hfits : page.block.postings.length ≤ capacity) :
    parse id capacity (encode capacity page) = .ok page.reread := by
  have hflags : (if page.free then 1 else 0) < 256 ^ 2 := by
    split <;> decide
  rw [encode_eq_bytesWith,
    parse_bytesWith id hcapacity hfits hflags (LittleEndian.length_bytes 4 0)]
  rcases page with ⟨block, free⟩
  cases free with
  | false =>
      rfl
  | true =>
      rfl

end Page

def Block.FitsPage (capacity : Nat) (block : Block) : Prop :=
  block.postings.length ≤ capacity ∧ block.next ≠ some Link.noBlock

namespace Page

/-!
## What is parsed
-/

theorem exists_of_readPostings {read postings : List Posting} {count : Nat}
    {input : List UInt8} (h : readPostings read count input = some postings) :
    ∃ own rest, postings = read.reverse ++ own ∧ own.length = count ∧
      input = body own ++ rest := by
  induction count generalizing read input with
  | zero =>
      rw [readPostings, Option.some.injEq] at h
      exact ⟨[], input, by rw [h, List.append_nil], rfl, rfl⟩
  | succ count ih =>
      rw [readPostings] at h
      cases hgame : LittleEndian.read? 4 input with
      | none =>
          simp [hgame] at h
      | some pair =>
          rcases pair with ⟨game, afterGame⟩
          cases hcount : LittleEndian.read? 4 afterGame with
          | none =>
              simp [hgame, hcount] at h
          | some pair =>
              rcases pair with ⟨appearances, after⟩
              simp only [hgame, hcount] at h
              rcases LittleEndian.eq_bytes_of_read? hgame with ⟨hgameLt, rfl⟩
              rcases LittleEndian.eq_bytes_of_read? hcount with ⟨hcountLt, rfl⟩
              rcases ih h with ⟨own, rest, rfl, rfl, rfl⟩
              refine ⟨{ game := UInt32.ofNat game, count := UInt32.ofNat appearances } :: own,
                rest, by simp, rfl, ?_⟩
              rw [body_cons, UInt32.toNat_ofNat_of_lt' hgameLt,
                UInt32.toNat_ofNat_of_lt' hcountLt, List.append_assoc, List.append_assoc]

theorem eq_of_readFields? {input rest : List UInt8} {fields : Fields}
    (h : readFields? input = some (fields, rest)) :
    input = LittleEndian.bytes 4 fields.next.toNat ++
      (LittleEndian.bytes 2 fields.length ++
        (LittleEndian.bytes 2 fields.flags ++
          (LittleEndian.bytes 4 fields.checksum.toNat ++ rest))) := by
  simp only [readFields?, Option.bind_eq_bind, Option.bind_eq_some_iff, Option.pure_def,
    Option.some.injEq, Prod.mk.injEq, Prod.exists] at h
  rcases h with ⟨next, afterNext, hnext, length, afterLength, hlength, flags, afterFlags,
    hflags, checksum, after, hchecksum, rfl, rfl⟩
  rcases LittleEndian.eq_bytes_of_read? hnext with ⟨hnextLt, rfl⟩
  rcases LittleEndian.eq_bytes_of_read? hlength with ⟨_, rfl⟩
  rcases LittleEndian.eq_bytes_of_read? hflags with ⟨_, rfl⟩
  rcases LittleEndian.eq_bytes_of_read? hchecksum with ⟨hchecksumLt, rfl⟩
  rw [UInt32.toNat_ofNat_of_lt' hnextLt, UInt32.toNat_ofNat_of_lt' hchecksumLt]

theorem exists_of_readBody? {length : Nat} {input content : List UInt8}
    (h : readBody? length input = some content) :
    content.length = length * postingSize ∧
      ∃ reserved padding, reserved.length = 4 ∧ input = reserved ++ (content ++ padding) := by
  unfold readBody? at h
  cases hread : LittleEndian.read? 4 input with
  | none =>
      simp [hread] at h
  | some pair =>
      rcases pair with ⟨reserved, rest⟩
      simp only [hread] at h
      rcases LittleEndian.eq_bytes_of_read? hread with ⟨_, rfl⟩
      by_cases hshort : (rest.take (length * postingSize)).length < length * postingSize
      · rw [if_pos hshort] at h
        cases h
      · rw [if_neg hshort, Option.some.injEq] at h
        subst h
        refine ⟨Nat.le_antisymm (List.length_take_le _ _) (Nat.not_lt.mp hshort),
          LittleEndian.bytes 4 reserved, rest.drop (length * postingSize),
          LittleEndian.length_bytes _ _, ?_⟩
        rw [List.take_append_drop]

theorem exists_parts_of_parse {id : BlockId} {capacity : Nat} {input : List UInt8}
    {page : Page} (h : parse id capacity input = .ok page) :
    ∃ fields rest content postings, readFields? input = some (fields, rest) ∧
      fields.length ≤ capacity ∧ readBody? fields.length rest = some content ∧
        Crc32.checksum content = fields.checksum ∧
          readPostings [] fields.length content = some postings ∧
            page = {
              block := { postings, next := Link.ofWord fields.next }
              free := fields.flags % 2 = 1 } := by
  unfold parse at h
  cases hfields : readFields? input with
  | none =>
      simp [hfields] at h
  | some pair =>
      rcases pair with ⟨fields, rest⟩
      simp only [hfields] at h
      split at h
      · cases h
      · next hfits =>
          cases hbody : readBody? fields.length rest with
          | none =>
              simp [hbody] at h
          | some content =>
              simp only [hbody] at h
              split at h
              · cases h
              · next hchecksum =>
                  cases hpostings : readPostings [] fields.length content with
                  | none =>
                      simp [hpostings] at h
                  | some postings =>
                      simp only [hpostings, Except.ok.injEq] at h
                      exact ⟨fields, rest, content, postings, rfl, Nat.not_lt.mp hfits,
                        hbody, not_not.mp hchecksum, hpostings, h.symm⟩

/-- A page fits, and was parsed from its bytes up to what a page leaves open. -/
theorem exists_bytesWith_of_parse {id : BlockId} {capacity : Nat} {input : List UInt8}
    {page : Page} (h : parse id capacity input = .ok page) :
    page.block.FitsPage capacity ∧
      ∃ flags reserved padding, (page.free ↔ flags % 2 = 1) ∧ reserved.length = 4 ∧
        input = page.bytesWith flags reserved padding := by
  rcases exists_parts_of_parse h with
    ⟨fields, rest, content, postings, hfields, hfits, hbody, hchecksum, hpostings, rfl⟩
  rcases exists_of_readBody? hbody with ⟨hcontent, reserved, padding, hreserved, rfl⟩
  rcases exists_of_readPostings hpostings with ⟨own, more, rfl, hlength, rfl⟩
  -- The postings take up all of their bytes.
  have hmore : more = [] := by
    rw [List.length_append, length_body, hlength] at hcontent
    exact List.eq_nil_of_length_eq_zero (Nat.add_eq_left.mp hcontent)
  subst hmore
  rw [List.append_nil] at hchecksum hfields
  refine ⟨⟨hlength ▸ hfits, Link.ofWord_ne_noBlock _⟩, fields.flags, reserved, padding, by simp,
    hreserved, ?_⟩
  rw [eq_of_readFields? hfields, bytesWith, Link.word_ofWord, ← hchecksum, ← hlength]

/-!
## What there are enough bytes for
-/

theorem exists_readFields? {input : List UInt8} (h : 12 ≤ input.length) :
    ∃ fields, readFields? input = some (fields, input.drop 12) := by
  have henough : ∀ width place, place + width ≤ 12 -> width ≤ (input.drop place).length := by
    intro width place hplace
    rw [List.length_drop]
    omega
  rcases LittleEndian.exists_read? (henough 4 0 (by decide)) with ⟨next, hnext⟩
  rcases LittleEndian.exists_read? (henough 2 4 (by decide)) with ⟨length, hlength⟩
  rcases LittleEndian.exists_read? (henough 2 6 (by decide)) with ⟨flags, hflags⟩
  rcases LittleEndian.exists_read? (henough 4 8 (by decide)) with ⟨checksum, hchecksum⟩
  rw [List.drop_drop] at hlength hflags hchecksum
  rw [List.drop_zero] at hnext
  exact ⟨{ next := UInt32.ofNat next, length, flags, checksum := UInt32.ofNat checksum },
    by simp [readFields?, hnext, hlength, hflags, hchecksum]⟩

theorem exists_readBody? {length : Nat} {input : List UInt8}
    (h : 4 + length * postingSize ≤ input.length) :
    ∃ content, readBody? length input = some content := by
  rcases LittleEndian.exists_read? (Nat.le_trans (Nat.le_add_right _ _) h) with ⟨_, hread⟩
  have hlength : ((input.drop 4).take (length * postingSize)).length =
      length * postingSize := by
    rw [List.length_take_of_le]
    rw [List.length_drop]
    exact Nat.le_sub_of_add_le' h
  simp only [readBody?, hread, hlength, Nat.lt_irrefl, if_false]
  exact ⟨_, rfl⟩

theorem exists_readPostings {read : List Posting} {count : Nat} {input : List UInt8}
    (h : count * postingSize ≤ input.length) :
    ∃ postings, readPostings read count input = some postings := by
  induction count generalizing read input with
  | zero =>
      exact ⟨_, rfl⟩
  | succ count ih =>
      rw [Nat.succ_mul, postingSize] at h
      have hgame : 4 ≤ input.length := by omega
      have hcount : 4 ≤ (input.drop 4).length := by rw [List.length_drop]; omega
      have hrest : count * postingSize ≤ ((input.drop 4).drop 4).length := by
        rw [List.length_drop, List.length_drop, postingSize]
        omega
      rcases LittleEndian.exists_read? hgame with ⟨game, hgame⟩
      rcases LittleEndian.exists_read? hcount with ⟨appearances, hcount⟩
      simp only [readPostings, hgame, hcount]
      exact ih hrest

end Page

end PostingIndex
