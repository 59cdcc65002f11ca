import PostingIndex.Config
import PostingIndex.Proofs.PageCodec

/-!
# The bytes of pages

A page is parsed back from its bytes.  The bytes that a page was parsed from are those of
the page, apart from what a page leaves open: all flags but the lowest, the reserved word,
and what stands behind the postings.

## Contents

The places of a page that its block settles, its flags, and the round trip from pages to
bytes and back.
-/

namespace PostingIndex

namespace Page

/-- The places that a block of `length` postings settles: link, length, checksum, postings. -/
def Settled (length position : Nat) : Prop :=
  position < 6 ∨ (8 ≤ position ∧ position < 12) ∨
    (headerSize ≤ position ∧ position < headerSize + length * postingSize)

instance (length position : Nat) : Decidable (Settled length position) :=
  inferInstanceAs (Decidable (_ ∨ _ ∨ _))

theorem getElem?_part {front part rest : List UInt8} {position start : Nat}
    (hfront : front.length = start) (hfrom : start ≤ position)
    (hbelow : position < start + part.length) :
    (front ++ (part ++ rest))[position]? = part[position - start]? := by
  have hin : position - start < part.length := Nat.sub_lt_left_of_lt_add hfrom hbelow
  rw [List.getElem?_append_right (hfront ▸ hfrom), hfront, List.getElem?_append_left hin]

variable {page : Page} {flags flags' : Nat} {reserved reserved' padding padding' : List UInt8}

theorem getElem?_bytesWith_of_settled {position : Nat}
    (h : Settled page.block.postings.length position) (hreserved : reserved.length = 4)
    (hreserved' : reserved'.length = 4) :
    (page.bytesWith flags reserved padding)[position]? =
      (page.bytesWith flags' reserved' padding')[position]? := by
  let link := LittleEndian.bytes 4 (Link.word page.block.next).toNat
  let length := LittleEndian.bytes 2 page.block.postings.length
  let checksum := LittleEndian.bytes 4 (Crc32.checksum (body page.block.postings)).toNat
  rcases h with hbelow | ⟨hfrom, hbelow⟩ | ⟨hfrom, hbelow⟩
  · have hpart : ∀ flags reserved padding, page.bytesWith flags reserved padding =
        [] ++ ((link ++ length) ++ (LittleEndian.bytes 2 flags ++ (checksum ++
          (reserved ++ (body page.block.postings ++ padding))))) := by
      simp [bytesWith, link, length, checksum]
    have hin : position < 0 + (link ++ length).length := by simpa [link, length] using hbelow
    rw [hpart, hpart, getElem?_part rfl (Nat.zero_le _) hin,
      getElem?_part rfl (Nat.zero_le _) hin]
  · have hpart : ∀ flags reserved padding, page.bytesWith flags reserved padding =
        (link ++ length ++ LittleEndian.bytes 2 flags) ++ (checksum ++
          (reserved ++ (body page.block.postings ++ padding))) := by
      simp [bytesWith, link, length, checksum]
    have hfront : ∀ flags, (link ++ length ++ LittleEndian.bytes 2 flags).length = 8 := by
      simp [link, length]
    have hin : position < 8 + checksum.length := by simpa [checksum] using hbelow
    rw [hpart, hpart, getElem?_part (hfront flags) hfrom hin,
      getElem?_part (hfront flags') hfrom hin]
  · have hpart : ∀ flags reserved padding, page.bytesWith flags reserved padding =
        (link ++ length ++ LittleEndian.bytes 2 flags ++ checksum ++ reserved) ++
          (body page.block.postings ++ padding) := by
      simp [bytesWith, link, length, checksum]
    have hfront : ∀ flags reserved, List.length reserved = 4 ->
        (link ++ length ++ LittleEndian.bytes 2 flags ++ checksum ++ reserved).length =
          headerSize := by
      intro flags reserved hreserved
      simp [link, length, checksum, headerSize, hreserved]
    rw [← length_body] at hbelow
    rw [hpart, hpart, getElem?_part (hfront flags reserved hreserved) hfrom hbelow,
      getElem?_part (hfront flags' reserved' hreserved') hfrom hbelow]

theorem getElem?_bytesWith_six :
    (page.bytesWith flags reserved padding)[6]? = some (UInt8.ofNat flags) := by
  simp [bytesWith, LittleEndian.bytes]

theorem ofNat_and_one (h : page.free ↔ flags % 2 = 1) :
    UInt8.ofNat flags &&& 1 = UInt8.ofNat (if page.free then 1 else 0) := by
  have hbit : (UInt8.ofNat flags &&& 1).toNat = flags % 2 := by
    rw [UInt8.toNat_and, UInt8.toNat_ofNat', UInt8.toNat_one, Nat.and_one_is_mod]
    omega
  apply UInt8.toNat.inj
  rw [hbit]
  cases hfree : page.free with
  | false =>
      have hne : ¬flags % 2 = 1 := fun heq =>
        Bool.false_ne_true (hfree.symm.trans (h.mpr heq))
      simpa using Nat.mod_two_ne_one.mp hne
  | true =>
      simpa using h.mp hfree

/--
A page whose block fits is parsed from its bytes, which are as many as all pages of the
capacity have.  The bytes of a page that was parsed are those that it was parsed from,
wherever its block settles them, and so is the lowest bit of its flags.
-/
theorem encode_parse_round_trip {capacity : Nat} (hcapacity : capacity ≤ Config.maxCapacity) :
    (∀ id page, Block.FitsPage capacity page.block ->
      (encode capacity page).length = size capacity ∧
        parse id capacity (encode capacity page) = .ok page) ∧
    ∀ id input page, parse id capacity input = .ok page ->
      (encode capacity page).length = size capacity ∧
        (∀ position, Settled page.block.postings.length position ->
          (encode capacity page)[position]? = input[position]?) ∧
        (encode capacity page)[6]? = input[6]?.map (· &&& 1) := by
  constructor
  · intro id page hfits
    have hlt : capacity < 256 ^ 2 := Nat.lt_of_le_of_lt hcapacity (by decide)
    refine ⟨length_encode hfits.left, ?_⟩
    rw [parse_encode id hlt hfits.left, reread_of_ne hfits.right]
  · intro id input page hparse
    rcases exists_bytesWith_of_parse hparse with
      ⟨hfits, flags, reserved, padding, hfree, hreserved, rfl⟩
    refine ⟨length_encode hfits.left, ?_, ?_⟩
    · intro position hsettled
      rw [encode_eq_bytesWith]
      exact getElem?_bytesWith_of_settled hsettled (LittleEndian.length_bytes 4 0) hreserved
    · rw [encode_eq_bytesWith, getElem?_bytesWith_six, getElem?_bytesWith_six, Option.map_some,
        ofNat_and_one hfree]

theorem encode_parse_round_trip_two_postings :
    let page : Page :=
      { block := { postings := [{ game := 4, count := 1 }, { game := 7, count := 2 }],
                   next := some 3 }
        free := true }
    let input := page.bytesWith 0x8003 [9, 9, 9, 9] (List.replicate 8 5)
    (3 ≤ Config.maxCapacity ∧ page.block.FitsPage 3 ∧ input.length = size 3 ∧
      parse 0 3 input = .ok page ∧ Settled page.block.postings.length 31) ∧
    parse 0 3 (encode 3 page) = .ok page ∧ (encode 3 page)[31]? = input[31]? ∧
      (encode 3 page)[6]? = input[6]?.map (· &&& 1) := by
  intro page input
  have hcapacity : 3 ≤ Config.maxCapacity := by decide
  have hfits : page.block.FitsPage 3 := ⟨by decide, by decide⟩
  have hlength : input.length = size 3 := by decide +kernel
  have hparse : parse 0 3 input = .ok page :=
    parse_bytesWith 0 (by decide) hfits.left (by decide) rfl _
  have hplace : Settled page.block.postings.length 31 := by decide
  rcases encode_parse_round_trip hcapacity with ⟨hforth, hback⟩
  rcases hback 0 input page hparse with ⟨_, hsettled, hflag⟩
  exact ⟨⟨hcapacity, hfits, hlength, hparse, hplace⟩, (hforth 0 page hfits).right,
    hsettled 31 hplace, hflag⟩

end Page

end PostingIndex
