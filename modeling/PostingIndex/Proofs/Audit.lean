import PostingIndex.Index.Audit
import PostingIndex.Proofs.Layout

/-!
# What the audit decides

The audit claims the blocks of one chain after the other and then looks for
numbers that nobody claimed.  It passes exactly if the chains that are read from
the heads form a sound layout of the index.

## Contents

Claiming the blocks of one chain and of all chains, the search for unreachable
numbers, and the characterization of the audit.
-/

namespace PostingIndex

namespace Index

/-!
## Claiming blocks
-/

theorem claimAll_eq_ok {free claimed result : IdTree} {owner : Entity}
    {chain : List StoredBlock} :
    claimAll free owner claimed chain = .ok result ↔
      (chainIds chain).Nodup ∧ (∀ id ∈ chainIds chain, id ∉ free ∧ id ∉ claimed) ∧
        claimed.insertMany (chainIds chain) = result := by
  induction chain generalizing claimed with
  | nil =>
      simp [claimAll]
  | cons stored rest ih =>
      rw [chainIds_cons, List.nodup_cons, Std.TreeSet.insertMany_cons]
      by_cases hfree : stored.id ∈ free
      · simp [claimAll, hfree]
      · by_cases hclaimed : stored.id ∈ claimed
        · simp [claimAll, hfree, hclaimed]
        · have hstep : claimAll free owner claimed (stored :: rest) =
              claimAll free owner (claimed.insert stored.id) rest := by
            simp [claimAll, hfree, hclaimed]
          rw [hstep, ih]
          constructor
          · intro h
            rcases h with ⟨hrest, hfresh, hresult⟩
            refine ⟨⟨?_, hrest⟩, ?_, hresult⟩
            · intro hmem
              exact (hfresh _ hmem).right (by simp)
            · intro id hmem
              rcases List.mem_cons.mp hmem with heq | hmem
              · exact heq ▸ ⟨hfree, hclaimed⟩
              · exact ⟨(hfresh id hmem).left, fun hin =>
                  (hfresh id hmem).right (Std.TreeSet.mem_insert.mpr (Or.inr hin))⟩
          · intro h
            rcases h with ⟨⟨hnew, hrest⟩, hfresh, hresult⟩
            refine ⟨hrest, ?_, hresult⟩
            intro id hmem
            have hid := hfresh id (List.mem_cons_of_mem _ hmem)
            refine ⟨hid.left, ?_⟩
            intro hin
            rcases Std.TreeSet.mem_insert.mp hin with heq | hin
            · have hsame : stored.id = id := Std.LawfulEqOrd.eq_of_compare heq
              exact hnew (hsame ▸ hmem)
            · exact hid.right hin

def readChain (index : Index) (head : Option BlockId) : List StoredBlock :=
  match (index.walkFrom head).result with
  | .ok chain => chain
  | .error _ => []

def readLayout (index : Index) : Layout := fun slot =>
  index.readChain (index.heads.headAt slot)

theorem readChain_eq_of_ok {index : Index} {head : Option BlockId}
    {chain : List StoredBlock} (h : (index.walkFrom head).result = .ok chain) :
    index.readChain head = chain := by
  rw [readChain, h]

theorem walkFrom_none (index : Index) : (index.walkFrom none).result = .ok [] := by
  simp [walkFrom, BlockSource.walk, BlockSource.follow, Walk.result]

@[simp]
theorem readChain_none (index : Index) : index.readChain none = [] :=
  readChain_eq_of_ok index.walkFrom_none

def claimedIds (index : Index) (starts : List HeadTable.ChainHead) : List BlockId :=
  starts.flatMap fun start => chainIds (index.readChain (some start.head))

/-- Chains are claimed exactly if all can be read and no number comes twice or is free. -/
theorem claimChains_eq_ok {index : Index} {free claimed result : IdTree}
    {starts : List HeadTable.ChainHead} :
    starts.foldlM (claimChain index free) claimed = .ok result ↔
      (∀ start ∈ starts, (index.walkFrom (some start.head)).result =
        .ok (index.readChain (some start.head))) ∧
      (index.claimedIds starts).Nodup ∧
      (∀ id ∈ index.claimedIds starts, id ∉ free ∧ id ∉ claimed) ∧
      claimed.insertMany (index.claimedIds starts) = result := by
  induction starts generalizing claimed with
  | nil =>
      simp [claimedIds, pure, Except.pure]
  | cons start rest ih =>
      have hids : index.claimedIds (start :: rest) =
          chainIds (index.readChain (some start.head)) ++ index.claimedIds rest :=
        List.flatMap_cons
      rw [List.foldlM_cons, Outcome.bind_eq_ok, hids, Std.TreeSet.insertMany_append,
        List.nodup_append]
      simp only [claimChain, Outcome.bind_eq_ok, claimAll_eq_ok, ih, List.forall_mem_cons]
      constructor
      · intro h
        rcases h with ⟨_, ⟨chain, hchain, hnodup, hfresh, heq⟩, hread, hrest, hrestFresh,
          hresult⟩
        subst heq
        rw [readChain_eq_of_ok hchain]
        refine ⟨⟨hchain, hread⟩, ⟨hnodup, hrest, ?_⟩, ?_, hresult⟩
        · intro id hid other hother heq
          subst heq
          exact (hrestFresh id hother).right
            (Std.TreeSet.mem_insertMany_list.mpr (Or.inr (by simpa using hid)))
        · intro id hid
          rcases List.mem_append.mp hid with hid | hid
          · exact hfresh id hid
          · exact ⟨(hrestFresh id hid).left, fun hin => (hrestFresh id hid).right
              (Std.TreeSet.mem_insertMany_list.mpr (Or.inl hin))⟩
      · intro h
        rcases h with ⟨⟨hchain, hread⟩, ⟨hnodup, hrest, hcross⟩, hfresh, hresult⟩
        refine ⟨_, ⟨_, hchain, hnodup, ?_, rfl⟩, hread, hrest, ?_, hresult⟩
        · intro id hid
          exact hfresh id (List.mem_append_left _ hid)
        · intro id hid
          have hboth := hfresh id (List.mem_append_right _ hid)
          refine ⟨hboth.left, ?_⟩
          intro hin
          rcases Std.TreeSet.mem_insertMany_list.mp hin with hin | hin
          · exact hboth.right hin
          · exact hcross id (by simpa using hin) id hid rfl

/-!
## Unreachable numbers
-/

theorem firstFrom?_eq_none {test : Nat -> Bool} {first count : Nat} :
    firstFrom? test first count = none ↔
      ∀ number, first ≤ number -> number < first + count -> test number = false := by
  induction count generalizing first with
  | zero =>
      simp only [firstFrom?, true_iff]
      intro number hle hlt
      omega
  | succ count ih =>
      rw [firstFrom?]
      cases htest : test first with
      | true =>
          simp only [if_true, reduceCtorEq, false_iff]
          intro h
          have hfirst := h first (Nat.le_refl _) (by omega)
          rw [htest] at hfirst
          cases hfirst
      | false =>
          rw [if_neg (by simp), ih]
          constructor
          · intro h number hle hlt
            by_cases heq : number = first
            · rw [heq, htest]
            · exact h number (by omega) (by omega)
          · intro h number hle hlt
            exact h number (by omega) (by omega)

theorem firstUnreachable?_eq_none {index : Index} {free claimed : IdTree} :
    index.firstUnreachable? free claimed = none ↔
      ∀ id, id < index.pool.numBlocks -> id ∈ claimed ∨ id ∈ free := by
  rw [firstUnreachable?, firstFrom?_eq_none]
  constructor
  · intro h id hlt
    have hid := h id.toNat (Nat.zero_le _) (by
      rw [Nat.zero_add]
      exact UInt32.lt_iff_toNat_lt.mp hlt)
    rw [UInt32.ofNat_toNat] at hid
    by_cases hclaimed : id ∈ claimed
    · exact Or.inl hclaimed
    · by_cases hfree : id ∈ free
      · exact Or.inr hfree
      · simp [hclaimed, hfree] at hid
  · intro h number _ hlt
    rw [Nat.zero_add] at hlt
    have hsmall : number < 2 ^ 32 :=
      Nat.lt_trans hlt index.pool.numBlocks.toNat_lt
    have hid := h (UInt32.ofNat number) (by
      rw [UInt32.lt_iff_toNat_lt, UInt32.toNat_ofNat_of_lt' hsmall]
      exact hlt)
    rcases hid with hclaimed | hfree
    · simp [hclaimed]
    · simp [hfree]

/-!
## The audit as a whole
-/

theorem find?_free_eq_none {pool : Pool} :
    (pool.free.ids.find? fun id => pool.numBlocks ≤ id) = none ↔ pool.FreeWithin := by
  rw [List.find?_eq_none]
  constructor
  · intro h id hmem
    simpa using h id hmem
  · intro h id hmem
    simpa using h id hmem

theorem verify_eq_ok_iff {index : Index} :
    index.verify = .ok () ↔
      index.arena.count ≤ index.pool.numBlocks ∧
        index.pool.FreeWithin ∧
          ∃ claimed, index.claimChains index.pool.free.tree = .ok claimed ∧
            index.firstUnreachable? index.pool.free.tree claimed = none := by
  unfold verify
  by_cases hsize : index.pool.numBlocks < index.arena.count
  · simp [hsize, UInt32.not_le.mpr hsize]
  · cases hfind : index.pool.free.ids.find? fun id => index.pool.numBlocks ≤ id with
    | some id =>
        have hwithin : ¬ index.pool.FreeWithin := by
          rw [← find?_free_eq_none, hfind]
          simp
        simp [hsize, hwithin, hfind]
    | none =>
        have hwithin := find?_free_eq_none.mp hfind
        cases hclaim : index.claimChains index.pool.free.tree with
        | error error =>
            simp [hsize, hfind, hclaim, bind, Except.bind]
        | ok claimed =>
            cases hreach : index.firstUnreachable? index.pool.free.tree claimed with
            | some number =>
                simp [hsize, hfind, hclaim, hreach, bind, Except.bind]
            | none =>
                simp [hsize, hfind, hclaim, hreach, hwithin, UInt32.not_lt.mp hsize, bind,
                  Except.bind, pure, Except.pure]

theorem mem_tree {set : IdSet} {id : BlockId} : id ∈ set.tree ↔ id ∈ set := by
  rw [← Std.TreeSet.contains_iff_mem, IdSet.contains_tree, decide_eq_true_iff]

theorem claimedIds_chains (index : Index) :
    index.claimedIds index.heads.chains =
      index.heads.slots.flatMap fun entry => chainIds (index.readChain (some entry.2)) := by
  rw [claimedIds, HeadTable.chains_eq_map_slots, List.flatMap_map]

theorem readLayout_of_mem_slots {index : Index} {entry : Slot × BlockId}
    (h : entry ∈ index.heads.slots) :
    index.readLayout entry.1 = index.readChain (some entry.2) := by
  rw [readLayout, (HeadTable.mem_slots index.nodup_types).mp h]

theorem exists_mem_slots {index : Index} {slot : Slot} {id : BlockId}
    (h : id ∈ chainIds (index.readLayout slot)) :
    ∃ head, (slot, head) ∈ index.heads.slots ∧
      index.readLayout slot = index.readChain (some head) := by
  cases hhead : index.heads.headAt slot with
  | none =>
      rw [readLayout, hhead, readChain_none] at h
      cases h
  | some head =>
      exact ⟨head, (HeadTable.mem_slots index.nodup_types).mpr hhead, by
        rw [readLayout, hhead]⟩

theorem mem_claimedIds_chains {index : Index} {id : BlockId} :
    id ∈ index.claimedIds index.heads.chains ↔
      ∃ slot, id ∈ chainIds (index.readLayout slot) := by
  rw [claimedIds_chains, List.mem_flatMap]
  constructor
  · intro h
    rcases h with ⟨entry, hentry, hid⟩
    exact ⟨entry.1, by rwa [readLayout_of_mem_slots hentry]⟩
  · intro h
    rcases h with ⟨slot, hid⟩
    rcases exists_mem_slots hid with ⟨head, hslot, hchain⟩
    exact ⟨(slot, head), hslot, by rwa [hchain] at hid⟩

theorem nodup_claimedIds_chains {index : Index} :
    (index.claimedIds index.heads.chains).Nodup ↔
      (∀ slot, (chainIds (index.readLayout slot)).Nodup) ∧
        ∀ left right, ∀ id ∈ chainIds (index.readLayout left),
          id ∈ chainIds (index.readLayout right) -> left = right := by
  rw [claimedIds_chains, List.nodup_flatMap]
  constructor
  · intro h
    rcases h with ⟨hchains, hpairs⟩
    constructor
    · intro slot
      cases hhead : index.heads.headAt slot with
      | none =>
          rw [readLayout, hhead, readChain_none]
          exact List.nodup_nil
      | some head =>
          rw [readLayout, hhead]
          exact hchains (slot, head) ((HeadTable.mem_slots index.nodup_types).mpr hhead)
    · intro left right id hleft hright
      rcases exists_mem_slots hleft with ⟨leftHead, hleftMem, hleftChain⟩
      rcases exists_mem_slots hright with ⟨rightHead, hrightMem, hrightChain⟩
      rw [hleftChain] at hleft
      rw [hrightChain] at hright
      by_contra hne
      have hentries : (left, leftHead) ≠ (right, rightHead) := fun heq =>
        hne (congrArg Prod.fst heq)
      have hsymm : Std.Symm (Function.onFun List.Disjoint fun entry : Slot × BlockId =>
          chainIds (index.readChain (some entry.2))) :=
        ⟨fun _ _ hpair _ hfirst hsecond => hpair hsecond hfirst⟩
      exact hpairs.forall hleftMem hrightMem hentries hleft hright
  · intro h
    rcases h with ⟨hchains, hseparate⟩
    constructor
    · intro entry hentry
      rw [← readLayout_of_mem_slots hentry]
      exact hchains entry.1
    · apply (HeadTable.nodup_slots index.nodup_types).pairwise_of_forall_ne
      intro left hleft right hright hne id hidLeft hidRight
      simp only [← readLayout_of_mem_slots hleft] at hidLeft
      simp only [← readLayout_of_mem_slots hright] at hidRight
      have hslot := hseparate left.1 right.1 id hidLeft hidRight
      have hleftHead := (HeadTable.mem_slots index.nodup_types).mp hleft
      have hrightHead := (HeadTable.mem_slots index.nodup_types).mp hright
      rw [hslot, hrightHead] at hleftHead
      exact hne (Prod.ext hslot (Option.some.inj hleftHead).symm)

theorem Laid.eq_readLayout {index : Index} {layout : Layout}
    (h : index.Laid layout) :
    layout = index.readLayout := by
  funext slot
  exact (readChain_eq_of_ok (h.walkFrom_result slot)).symm

theorem result_readLayout {index : Index}
    (h : ∀ start ∈ index.heads.chains, (index.walkFrom (some start.head)).result =
      .ok (index.readChain (some start.head))) (slot : Slot) :
    (index.walkFrom (index.heads.headAt slot)).result = .ok (index.readLayout slot) := by
  cases hhead : index.heads.headAt slot with
  | none =>
      rw [readLayout, hhead, readChain_none]
      exact index.walkFrom_none
  | some head =>
      have hslot := (HeadTable.mem_slots index.nodup_types).mpr hhead
      rw [HeadTable.chains_eq_map_slots, List.forall_mem_map] at h
      rw [readLayout, hhead]
      exact h (slot, head) hslot

theorem laid_of_verify {index : Index} (h : index.verify = .ok ()) :
    index.Laid index.readLayout := by
  rcases verify_eq_ok_iff.mp h with ⟨hsize, hwithin, claimed, hclaim, hreach⟩
  rcases claimChains_eq_ok.mp hclaim with ⟨hread, hnodup, hfresh, hclaimed⟩
  have hchain := fun slot => BlockSource.chain_eq_ok.mp (result_readLayout hread slot)
  constructor
  · intro slot
    exact (hchain slot).left
  · intro slot
    exact (hchain slot).right.left
  · intro slot
    exact (hchain slot).right.right
  · exact (nodup_claimedIds_chains.mp hnodup).right
  · intro slot id hid hfree
    exact (hfresh id (mem_claimedIds_chains.mpr ⟨slot, hid⟩)).left (mem_tree.mpr hfree)
  · intro id hlt
    rcases firstUnreachable?_eq_none.mp hreach id hlt with hin | hfree
    · rw [← hclaimed, Std.TreeSet.mem_insertMany_list] at hin
      rcases hin with hin | hin
      · exact absurd hin Std.TreeSet.not_mem_emptyc
      · exact Or.inr (mem_claimedIds_chains.mp (by simpa using hin))
    · exact Or.inl (mem_tree.mp hfree)
  · exact hwithin
  · exact hsize

theorem verify_of_laid_readLayout {index : Index}
    (h : index.Laid index.readLayout) :
    index.verify = .ok () := by
  apply verify_eq_ok_iff.mpr
  refine ⟨h.arenaWithin, h.freeWithin, _, claimChains_eq_ok.mpr ⟨?_, ?_, ?_, rfl⟩, ?_⟩
  · intro start hstart
    rw [HeadTable.chains_eq_map_slots] at hstart
    rcases List.mem_map.mp hstart with ⟨entry, hentry, heq⟩
    have hresult := h.walkFrom_result entry.1
    rw [(HeadTable.mem_slots index.nodup_types).mp hentry,
      readLayout_of_mem_slots hentry] at hresult
    rw [← heq]
    exact hresult
  · exact nodup_claimedIds_chains.mpr ⟨h.nodup_chainIds, h.separate⟩
  · intro id hid
    rcases mem_claimedIds_chains.mp hid with ⟨slot, hslot⟩
    exact ⟨fun hfree => h.inUse slot id hslot (mem_tree.mp hfree),
      Std.TreeSet.not_mem_emptyc⟩
  · apply firstUnreachable?_eq_none.mpr
    intro id hlt
    rcases h.covered id hlt with hfree | ⟨slot, hslot⟩
    · exact Or.inr (mem_tree.mpr hfree)
    · apply Or.inl
      apply Std.TreeSet.mem_insertMany_list.mpr
      exact Or.inr (by simpa using mem_claimedIds_chains.mpr ⟨slot, hslot⟩)

/-- The audit passes exactly if the layout that is read is sound. -/
theorem verify_eq_ok {index : Index} :
    index.verify = .ok () ↔ index.Laid index.readLayout :=
  ⟨laid_of_verify, verify_of_laid_readLayout⟩

theorem verify_eq_ok_iff_exists {index : Index} :
    index.verify = .ok () ↔ ∃ layout, index.Laid layout := by
  rw [verify_eq_ok]
  constructor
  · intro h
    exact ⟨index.readLayout, h⟩
  · intro h
    rcases h with ⟨layout, hlaid⟩
    exact hlaid.eq_readLayout ▸ hlaid

theorem verify_of_laid {index : Index} {layout : Layout} (h : index.Laid layout) :
    index.verify = .ok () :=
  verify_eq_ok_iff_exists.mpr ⟨layout, h⟩

theorem verify_new {config : Config} {index : Index} (h : new config = .ok index) :
    index.verify = .ok () :=
  verify_of_laid (laid_new h)

end Index

end PostingIndex
