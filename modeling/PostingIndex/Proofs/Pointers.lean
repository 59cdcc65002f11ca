import PostingIndex.Proofs.Storing

/-!
# Pointers of an index

The heads of an index and the links of its blocks in use name each block in use
exactly once, and nothing else.  An index with one changed pointer cannot have
this property again: the block that the pointer named is not named any more, or
the block that it names now is named twice.  So the audit finds the change, and
so does reading a file with it.

## Contents

Links along one chain, the pointers of an index with what they name, changing one
pointer, and what the audit and a file say of the change.
-/

namespace PostingIndex

/-!
## Links along one chain
-/

namespace Linked

variable {chain : List StoredBlock} {id : BlockId}

theorem mem_tail_of_next (h : Linked chain) {stored : StoredBlock} (hmem : stored ∈ chain)
    (hnext : stored.block.next = some id) : id ∈ (chainIds chain).tail := by
  cases chain with
  | nil =>
      cases hmem
  | cons head rest =>
      rcases List.mem_cons.mp hmem with heq | hmem
      · rw [heq, h.left, chainHead_eq_head?] at hnext
        exact List.mem_of_head? hnext
      · exact h.right.mem_of_next hmem hnext

theorem head_or_next (h : Linked chain) (hmem : id ∈ chainIds chain) :
    chainHead chain = some id ∨ ∃ stored ∈ chain, stored.block.next = some id := by
  induction chain with
  | nil =>
      cases hmem
  | cons head rest ih =>
      rcases List.mem_cons.mp hmem with heq | hmem
      · exact Or.inl (congrArg some heq.symm)
      · right
        rcases ih h.right hmem with hhead | ⟨stored, hstored, hnext⟩
        · exact ⟨head, List.mem_cons_self, h.left.trans hhead⟩
        · exact ⟨stored, List.mem_cons_of_mem _ hstored, hnext⟩

theorem chainHead_ne_of_next (h : Linked chain) (hnodup : (chainIds chain).Nodup)
    {stored : StoredBlock} (hmem : stored ∈ chain) (hnext : stored.block.next = some id) :
    chainHead chain ≠ some id := by
  intro hhead
  have htail := h.mem_tail_of_next hmem hnext
  rw [chainHead_eq_head?] at hhead
  rcases List.head?_eq_some_iff.mp hhead with ⟨rest, heq⟩
  rw [heq] at htail hnodup
  exact (List.nodup_cons.mp hnodup).left htail

theorem eq_of_next (h : Linked chain) (hnodup : (chainIds chain).Nodup)
    {left right : StoredBlock} (hleft : left ∈ chain) (hright : right ∈ chain)
    (hnext : left.block.next = some id) (hnext' : right.block.next = some id) :
    left = right := by
  induction chain with
  | nil =>
      cases hleft
  | cons head rest ih =>
      have hrest := (List.nodup_cons.mp hnodup).right
      cases hleft with
      | head =>
          cases hright with
          | head =>
              rfl
          | tail _ hright =>
              exact absurd (h.left.symm.trans hnext)
                (h.right.chainHead_ne_of_next hrest hright hnext')
      | tail _ hleft =>
          cases hright with
          | head =>
              exact absurd (h.left.symm.trans hnext')
                (h.right.chainHead_ne_of_next hrest hleft hnext)
          | tail _ hright =>
              exact ih h.right hrest hleft hright

end Linked

/-!
## Pointers
-/

/-- A place that names a block or none. -/
inductive Pointer where
  | head (slot : Slot)
  | link (id : BlockId)
deriving DecidableEq

def Pool.InUse (pool : Pool) (id : BlockId) : Prop :=
  id < pool.numBlocks ∧ id ∉ pool.free

instance Pool.decidableInUse (pool : Pool) (id : BlockId) : Decidable (pool.InUse id) :=
  inferInstanceAs (Decidable (id < pool.numBlocks ∧ ¬ id ∈ pool.free.ids))

namespace Index

/-- The pointers of an index are the slots of known entities and the links of blocks in use. -/
def HasPointer (index : Index) : Pointer -> Prop
  | .head slot => slot.place < index.heads.extent slot.type
  | .link id => index.pool.InUse id

instance decidableHasPointer (index : Index) :
    (pointer : Pointer) -> Decidable (index.HasPointer pointer)
  | .head slot => inferInstanceAs (Decidable (slot.place < index.heads.extent slot.type))
  | .link id => index.pool.decidableInUse id

def target (index : Index) : Pointer -> Option BlockId
  | .head slot => index.heads.headAt slot
  | .link id => (index.arena.get? id).bind Block.next

namespace Laid

variable {index : Index} {layout : Layout} {id : BlockId}

theorem inUse_iff (h : index.Laid layout) :
    index.pool.InUse id ↔ ∃ slot, id ∈ chainIds (layout slot) := by
  constructor
  · intro hid
    exact (h.covered id (UInt32.lt_iff_toNat_lt.mp hid.left)).resolve_left hid.right
  · intro hid
    rcases hid with ⟨slot, hslot⟩
    exact ⟨h.lt_numBlocks hslot, h.inUse slot id hslot⟩

theorem get?_of_mem (h : index.Laid layout) {slot : Slot}
    {stored : StoredBlock} (hmem : stored ∈ layout slot) :
    index.arena.get? stored.id = some stored.block :=
  load_source_eq_ok.mp ((h.held slot).stored stored hmem).right

theorem exists_pointer (h : index.Laid layout)
    (hid : index.pool.InUse id) :
    ∃ pointer, index.HasPointer pointer ∧ index.target pointer = some id := by
  rcases h.inUse_iff.mp hid with ⟨slot, hslot⟩
  rcases (h.held slot).linked.head_or_next hslot with hhead | ⟨stored, hstored, hnext⟩
  · have hat : index.heads.headAt slot = some id := h.starts slot ▸ hhead
    exact ⟨.head slot, HeadTable.place_lt_extent hat, hat⟩
  · refine ⟨.link stored.id, ?_, ?_⟩
    · exact h.inUse_iff.mpr ⟨slot, List.mem_map.mpr ⟨stored, hstored, rfl⟩⟩
    · rw [target, h.get?_of_mem hstored]
      exact hnext

theorem mem_of_target (h : index.Laid layout) {pointer : Pointer}
    (hpointer : index.HasPointer pointer) (htarget : index.target pointer = some id) :
    ∃ slot, id ∈ chainIds (layout slot) ∧
      ((pointer = .head slot ∧ chainHead (layout slot) = some id) ∨
        ∃ stored ∈ layout slot, pointer = .link stored.id ∧ stored.block.next = some id) := by
  cases pointer with
  | head slot =>
      have hhead : chainHead (layout slot) = some id := (h.starts slot).trans htarget
      refine ⟨slot, ?_, Or.inl ⟨rfl, hhead⟩⟩
      rw [chainHead_eq_head?] at hhead
      exact List.mem_of_head? hhead
  | link block =>
      rcases h.inUse_iff.mp hpointer with ⟨slot, hslot⟩
      rcases List.mem_map.mp hslot with ⟨stored, hstored, heq⟩
      have hnext : stored.block.next = some id := by
        rw [target, ← heq, h.get?_of_mem hstored] at htarget
        exact htarget
      exact ⟨slot, (h.held slot).linked.mem_of_next hstored hnext,
        Or.inr ⟨stored, hstored, by rw [heq], hnext⟩⟩

theorem inUse_of_target (h : index.Laid layout)
    {pointer : Pointer} (hpointer : index.HasPointer pointer)
    (htarget : index.target pointer = some id) : index.pool.InUse id := by
  rcases h.mem_of_target hpointer htarget with ⟨slot, hslot, _⟩
  exact h.inUse_iff.mpr ⟨slot, hslot⟩

/-- No block is named by two pointers. -/
theorem eq_of_target (h : index.Laid layout)
    {left right : Pointer} (hleft : index.HasPointer left) (hright : index.HasPointer right)
    (htarget : index.target left = some id) (htarget' : index.target right = some id) :
    left = right := by
  rcases h.mem_of_target hleft htarget with ⟨slot, hslot, hcase⟩
  rcases h.mem_of_target hright htarget' with ⟨slot', hslot', hcase'⟩
  have heq := h.separate slot slot' id hslot hslot'
  subst heq
  have hlinked := (h.held slot).linked
  have hnodup := h.nodup_chainIds slot
  rcases hcase with ⟨hp, hhead⟩ | ⟨stored, hstored, hp, hnext⟩
  · rcases hcase' with ⟨hp', _⟩ | ⟨stored', hstored', _, hnext'⟩
    · rw [hp, hp']
    · exact absurd hhead (hlinked.chainHead_ne_of_next hnodup hstored' hnext')
  · rcases hcase' with ⟨_, hhead'⟩ | ⟨stored', hstored', hp', hnext'⟩
    · exact absurd hhead' (hlinked.chainHead_ne_of_next hnodup hstored hnext)
    · rw [hp, hp', hlinked.eq_of_next hnodup hstored hstored' hnext hnext']

end Laid

end Index

/-!
## Changing one pointer
-/

namespace Arena

def relink (arena : Arena) (id : BlockId) (target : Option BlockId) : Arena :=
  { blocks := arena.blocks.modify id.toNat fun block => { block with next := target } }

@[simp]
theorem size_relink (arena : Arena) (id : BlockId) (target : Option BlockId) :
    (arena.relink id target).size = arena.size :=
  Array.size_modify

theorem get?_relink_self {arena : Arena} {id : BlockId} {block : Block}
    (h : arena.get? id = some block) (target : Option BlockId) :
    (arena.relink id target).get? id = some { block with next := target } := by
  rw [get?] at h
  rw [relink, get?, Array.getElem?_modify, if_pos rfl, h]
  rfl

theorem get?_relink_ne (arena : Arena) {id other : BlockId} (hne : other ≠ id)
    (target : Option BlockId) : (arena.relink id target).get? other = arena.get? other := by
  rw [relink, get?, Array.getElem?_modify, if_neg (toNat_ne hne)]
  rfl

theorem each_relink {property : Block -> Prop} {arena : Arena} (harena : arena.Each property)
    {id : BlockId} {target : Option BlockId}
    (hblock : ∀ block, property block -> property { block with next := target }) :
    (arena.relink id target).Each property := by
  intro block hmem
  rcases Array.mem_iff_getElem?.mp hmem with ⟨number, hnumber⟩
  rw [relink, Array.getElem?_modify] at hnumber
  split at hnumber
  · rcases Option.map_eq_some_iff.mp hnumber with ⟨old, hold, heq⟩
    rw [← heq]
    exact hblock old (harena old (Array.mem_of_getElem? hold))
  · exact harena block (Array.mem_of_getElem? hnumber)

end Arena

namespace HeadTable

theorem mem_heads_putAt {table : HeadTable} {slot : Slot} {head other : Option BlockId}
    {row : HeadRow} (hrow : row ∈ (table.putAt slot head).rows) (hmem : other ∈ row.heads) :
    other = head ∨ ∃ old ∈ table.rows, other ∈ old.heads := by
  rcases table with ⟨rows⟩
  simp only [putAt] at hrow
  induction rows with
  | nil =>
      cases hrow
  | cons first rest ih =>
      rw [mapRow] at hrow
      split at hrow
      · rcases List.mem_cons.mp hrow with heq | hrest
        · rw [heq] at hmem
          rcases Array.mem_or_eq_of_mem_setIfInBounds hmem with hold | hnew
          · exact Or.inr ⟨first, List.mem_cons_self, hold⟩
          · exact Or.inl hnew
        · exact Or.inr ⟨row, List.mem_cons_of_mem _ hrest, hmem⟩
      · rcases List.mem_cons.mp hrow with heq | hrest
        · exact Or.inr ⟨first, List.mem_cons_self, heq ▸ hmem⟩
        · rcases ih hrest with hnew | ⟨old, hold, hother⟩
          · exact Or.inl hnew
          · exact Or.inr ⟨old, List.mem_cons_of_mem _ hold, hother⟩

end HeadTable

namespace Index

/-- The index in which a pointer names another block or none. -/
def repoint (index : Index) (pointer : Pointer) (target : Option BlockId) : Index :=
  match pointer with
  | .head slot =>
      { index with
        heads := index.heads.putAt slot target
        usable := by simpa using index.usable }
  | .link id => { index with arena := index.arena.relink id target }

@[simp]
theorem pool_repoint (index : Index) (pointer : Pointer) (target : Option BlockId) :
    (index.repoint pointer target).pool = index.pool := by
  cases pointer with
  | head slot =>
      rfl
  | link id =>
      rfl

theorem hasPointer_repoint {index : Index} {pointer : Pointer} {target : Option BlockId}
    {other : Pointer} :
    (index.repoint pointer target).HasPointer other ↔ index.HasPointer other := by
  cases pointer with
  | head slot =>
      cases other with
      | head otherSlot =>
          show otherSlot.place < (index.heads.putAt slot target).extent otherSlot.type ↔ _
          rw [HeadTable.extent_putAt]
          rfl
      | link id =>
          rfl
  | link id =>
      cases other with
      | head slot =>
          rfl
      | link otherId =>
          rfl

theorem Laid.target_repoint {index : Index} {layout : Layout}
    (h : index.Laid layout) {pointer : Pointer}
    (hpointer : index.HasPointer pointer) (target : Option BlockId) (other : Pointer) :
    (index.repoint pointer target).target other =
      if other = pointer then target else index.target other := by
  cases pointer with
  | head slot =>
      cases other with
      | head otherSlot =>
          simp only [Pointer.head.injEq]
          exact HeadTable.headAt_putAt hpointer target otherSlot
      | link id =>
          rfl
  | link id =>
      cases other with
      | head slot =>
          rfl
      | link otherId =>
          simp only [Pointer.link.injEq]
          show ((index.arena.relink id target).get? otherId).bind Block.next = _
          by_cases heq : otherId = id
          · rcases h.inUse_iff.mp hpointer with ⟨slot, hslot⟩
            rcases List.mem_map.mp hslot with ⟨stored, hstored, hid⟩
            have hget := h.get?_of_mem hstored
            rw [hid] at hget
            rw [if_pos heq, heq, Arena.get?_relink_self hget]
            rfl
          · rw [if_neg heq, Arena.get?_relink_ne _ heq]
            rfl

/-!
## Finding the change
-/

theorem Laid.eq_target_of_repoint {index : Index} {layout changed : Layout}
    (h : index.Laid layout) {pointer : Pointer}
    (hpointer : index.HasPointer pointer) {target : Option BlockId}
    (hchanged : (index.repoint pointer target).Laid changed) :
    target = index.target pointer := by
  have htarget := h.target_repoint hpointer target
  have hself : (index.repoint pointer target).target pointer = target := by
    rw [htarget, if_pos rfl]
  have hpointer' := (@hasPointer_repoint index pointer target pointer).mpr hpointer
  by_contra hne
  cases hold : index.target pointer with
  | some id =>
      -- The block that was named is still in use, so another pointer has to name it.
      have hid := h.inUse_of_target hpointer hold
      rw [← pool_repoint index pointer target] at hid
      rcases hchanged.exists_pointer hid with ⟨other, hother, hnamed⟩
      rw [htarget] at hnamed
      split at hnamed
      · exact hne (hnamed.trans hold.symm)
      · next hdiffer =>
          exact hdiffer (h.eq_of_target (hasPointer_repoint.mp hother) hpointer hnamed hold)
  | none =>
      cases target with
      | none =>
          exact hne hold.symm
      | some id =>
          -- The block that is named now has another pointer to it, which did not change.
          have hid := hchanged.inUse_of_target hpointer' hself
          rw [pool_repoint] at hid
          rcases h.exists_pointer hid with ⟨other, hother, hnamed⟩
          have hdiffer : other ≠ pointer := by
            intro heq
            rw [heq, hold] at hnamed
            cases hnamed
          have hstill : (index.repoint pointer (some id)).target other = some id := by
            rw [htarget, if_neg hdiffer, hnamed]
          exact hdiffer
            (hchanged.eq_of_target (hasPointer_repoint.mpr hother) hpointer' hstill hself)

theorem exists_error_verify_repoint {index : Index} (h : index.verify = .ok ())
    {pointer : Pointer} (hpointer : index.HasPointer pointer) {target : Option BlockId}
    (hne : target ≠ index.target pointer) :
    ∃ error, (index.repoint pointer target).verify = .error error := by
  cases hverify : (index.repoint pointer target).verify with
  | error error =>
      exact ⟨error, rfl⟩
  | ok value =>
      exact absurd ((laid_of_verify h).eq_target_of_repoint hpointer (laid_of_verify hverify))
        hne

theorem Storable.encodable_repoint {index : Index} (h : index.Storable) (pointer : Pointer)
    {target : Option BlockId} (htarget : target ≠ some Link.noBlock) :
    (index.repoint pointer target).Encodable := by
  have hencodable := h.encodable
  cases pointer with
  | head slot =>
      refine ⟨hencodable.full, hencodable.fits, ?_, hencodable.freeWithin⟩
      intro row hrow head hhead
      rcases HeadTable.mem_heads_putAt hrow hhead with heq | ⟨old, hold, hmem⟩
      · rw [heq]
        exact htarget
      · exact hencodable.linked old hold head hmem
  | link id =>
      refine ⟨?_, ?_, hencodable.linked, hencodable.freeWithin⟩
      · exact (Arena.size_relink _ _ _).trans hencodable.full
      · exact Arena.each_relink hencodable.fits fun block hfits => ⟨hfits.left, htarget⟩

/--
A changed pointer never passes the audit.  In an index that a run leads to, it
does not pass in a file either, unless it names the reserved number, which a file
holds in the place of none.
-/
theorem exists_error_of_repoint :
    (∀ (index : Index) (pointer : Pointer) (target : Option BlockId),
      index.verify = .ok () -> index.HasPointer pointer -> target ≠ index.target pointer ->
        ∃ error, (index.repoint pointer target).verify = .error error) ∧
    ∀ (start : Index) (row : List Step) (pointer : Pointer) (target : Option BlockId),
      start.Initial -> (start.steps row).HasPointer pointer ->
        target ≠ (start.steps row).target pointer -> target ≠ some Link.noBlock ->
          ∀ pack createdAt,
            File.Unpacks pack ((start.steps row).repoint pointer target).heads ->
              ∃ error, File.read (File.writeWith pack
                ((start.steps row).repoint pointer target) createdAt) = .error error := by
  constructor
  · intro index pointer target hverify hpointer hne
    exact exists_error_verify_repoint hverify hpointer hne
  · intro start row pointer target hstart hpointer hne htarget pack createdAt hpack
    have hstorable := lasting_storable.steps hstart.storable row
    have hencodable := hstorable.encodable_repoint pointer htarget
    rcases exists_error_verify_repoint hstorable.verified hpointer hne with ⟨error, herror⟩
    rw [(File.parts_writeWith hencodable hpack createdAt).read_eq, herror]
    exact ⟨error, rfl⟩

/--
A block of the first player is linked to the block of the third.  After a run that
introduces two players, the head of the second one is lost in a file.
-/
theorem exists_error_of_repoint_players :
    let index : Index :=
      { capacity := 1
        pool := Pool.ofParts 4 [1]
        heads := { rows := [{ type := .player, heads := #[some 0, none, some 3] }] }
        arena := { blocks := #[
          { postings := [{ game := 4, count := 1 }], next := some 2 },
          {},
          { postings := [{ game := 7, count := 2 }] },
          { postings := [{ game := 4, count := 1 }] }] }
        usable := by decide }
    let row : List Step := [
      .update
        { entity := { type := .player, id := 0 }
          changes := Changes.ofList [(4, 1), (7, 2)] },
      .batch [{ game := 9, new := some { white := some 0, black := some 1 } }]]
    let second : Pointer := .head { type := .player, place := 1 }
    (index.verify = .ok () ∧ index.HasPointer (.link 0) ∧
      some 3 ≠ index.target (.link 0) ∧
        ∃ error, (index.repoint (.link 0) (some 3)).verify = .error error) ∧
    ∃ start, new { types := [.player], capacity := 1 } = .ok start ∧
      (start.steps row).HasPointer second ∧
        none ≠ (start.steps row).target second ∧
          File.Unpacks Lz4.compress ((start.steps row).repoint second none).heads ∧
            ∃ error, File.read (File.write ((start.steps row).repoint second none) 0) =
              .error error := by
  intro index row second
  let start : Index :=
    { capacity := 1
      pool := Pool.empty
      heads := HeadTable.ofTypes [.player]
      arena := Arena.empty
      usable := by decide }
  have hnew : new { types := [.player], capacity := 1 } = .ok start := rfl
  have hverify : index.verify = .ok () := by decide +kernel
  have hlink : index.HasPointer (.link 0) := by decide
  have hother : some 3 ≠ index.target (.link 0) := by decide
  have hhead : (start.steps row).HasPointer second := by decide +kernel
  have hlost : none ≠ (start.steps row).target second := by decide +kernel
  have hpack : File.Unpacks Lz4.compress ((start.steps row).repoint second none).heads := by
    decide +kernel
  rcases exists_error_of_repoint with ⟨haudit, hfile⟩
  exact ⟨⟨hverify, hlink, hother, haudit _ _ _ hverify hlink hother⟩, start, hnew, hhead,
    hlost, hpack, hfile start row second none (Or.inl ⟨_, hnew⟩) hhead hlost nofun
      Lz4.compress 0 hpack⟩

end Index

end PostingIndex
