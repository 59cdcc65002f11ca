import Mathlib.Data.List.Nodup
import Mathlib.Data.List.Perm.Subperm
import Mathlib.Data.List.Range
import PostingIndex.Proofs.Outcome
import PostingIndex.Proofs.Routing

/-!
# Sound chains and the walk along them

The walk along a chain follows links one block at a time.  It reaches the end
exactly if the links lead through stored blocks that together form a sound
chain.  The bound on the number of steps never stops a sound chain: the games of
its blocks ascend, so no block comes twice.

## Contents

Linked rows of blocks, sound chains, what the check of a block decides, and the
chains that a walk accepts.
-/

namespace PostingIndex

def chainHead (chain : List StoredBlock) : Option BlockId :=
  chain.head?.map StoredBlock.id

def chainIds (chain : List StoredBlock) : List BlockId :=
  chain.map StoredBlock.id

@[simp]
theorem chainIds_nil : chainIds [] = [] :=
  rfl

@[simp]
theorem chainIds_cons (stored : StoredBlock) (rest : List StoredBlock) :
    chainIds (stored :: rest) = stored.id :: chainIds rest :=
  rfl

theorem chainHead_eq_head? (chain : List StoredBlock) :
    chainHead chain = (chainIds chain).head? := by
  rw [chainHead, chainIds, List.head?_map]

theorem length_le_of_nodup_of_lt {ids : List BlockId} {bound : Nat} (hnodup : ids.Nodup)
    (hlt : ∀ id ∈ ids, id.toNat < bound) : ids.length ≤ bound := by
  have hnumbers : (ids.map UInt32.toNat).Nodup :=
    hnodup.map fun _ _ heq => UInt32.toNat.inj heq
  have hsub : ids.map UInt32.toNat ⊆ List.range bound := by
    intro number hmem
    rcases List.mem_map.mp hmem with ⟨id, hid, heq⟩
    rw [← heq]
    exact List.mem_range.mpr (hlt id hid)
  have hlength := (List.subperm_of_subset hnumbers hsub).length_le
  simpa using hlength

def Linked : List StoredBlock -> Prop
  | [] => True
  | stored :: rest => stored.block.next = chainHead rest ∧ Linked rest

theorem Linked.mem_of_next {chain : List StoredBlock} (h : Linked chain)
    {stored : StoredBlock} (hmem : stored ∈ chain) {id : BlockId}
    (hnext : stored.block.next = some id) : id ∈ chainIds chain := by
  induction chain with
  | nil =>
      cases hmem
  | cons head rest ih =>
      rw [chainIds_cons]
      apply List.mem_cons_of_mem
      rcases List.mem_cons.mp hmem with heq | hmem
      · rw [heq, h.left, chainHead_eq_head?] at hnext
        exact List.mem_of_head? hnext
      · exact ih h.right hmem

/-- The blocks of a chain are filled within the capacity and ascend throughout. -/
structure SoundChain (capacity : Nat) (chain : List StoredBlock) : Prop where
  filled : ∀ stored ∈ chain, stored.block.postings ≠ []
  fits : ∀ stored ∈ chain, stored.block.postings.length ≤ capacity
  ordered : Posting.Ordered (chainPostings chain)

namespace BlockSource

/-- A row of blocks is stored in a source and linked there. -/
structure Holds (source : BlockSource) (chain : List StoredBlock) : Prop where
  linked : Linked chain
  stored : ∀ stored ∈ chain,
    stored.id.toNat < source.count ∧ source.load stored.id = .ok stored.block

theorem holds_cons {source : BlockSource} {stored : StoredBlock}
    {rest : List StoredBlock} :
    source.Holds (stored :: rest) ↔
      (stored.id.toNat < source.count ∧ source.load stored.id = .ok stored.block) ∧
        stored.block.next = chainHead rest ∧ source.Holds rest := by
  constructor
  · intro h
    exact ⟨h.stored stored (by simp), h.linked.left, h.linked.right,
      fun other hmem => h.stored other (List.mem_cons_of_mem _ hmem)⟩
  · intro h
    rcases h with ⟨hstored, hnext, hrest⟩
    constructor
    · exact ⟨hnext, hrest.linked⟩
    · intro other hmem
      rcases List.mem_cons.mp hmem with heq | hmem
      · rw [heq]
        exact hstored
      · exact hrest.stored other hmem

end BlockSource

theorem soundChain_nil (capacity : Nat) : SoundChain capacity [] where
  filled := by
    intro stored hmem
    cases hmem
  fits := by
    intro stored hmem
    cases hmem
  ordered := Posting.ordered_nil

theorem soundChain_cons {capacity : Nat} {stored : StoredBlock}
    {rest : List StoredBlock} :
    SoundChain capacity (stored :: rest) ↔
      stored.block.postings ≠ [] ∧ stored.block.postings.length ≤ capacity ∧
        Posting.Ordered stored.block.postings ∧ SoundChain capacity rest ∧
          ∀ before ∈ stored.block.postings, ∀ after ∈ chainPostings rest,
            before.game < after.game := by
  constructor
  · intro h
    have hordered := h.ordered
    rw [chainPostings_cons] at hordered
    rcases Posting.ordered_append.mp hordered with ⟨hleft, hright, hcross⟩
    exact ⟨h.filled stored (by simp), h.fits stored (by simp), hleft,
      ⟨fun other hmem => h.filled other (List.mem_cons_of_mem _ hmem),
        fun other hmem => h.fits other (List.mem_cons_of_mem _ hmem), hright⟩, hcross⟩
  · intro h
    rcases h with ⟨hfilled, hfits, hleft, hrest, hcross⟩
    constructor
    · intro other hmem
      rcases List.mem_cons.mp hmem with heq | hmem
      · exact heq ▸ hfilled
      · exact hrest.filled other hmem
    · intro other hmem
      rcases List.mem_cons.mp hmem with heq | hmem
      · exact heq ▸ hfits
      · exact hrest.fits other hmem
    · rw [chainPostings_cons]
      exact Posting.ordered_append.mpr ⟨hleft, hrest.ordered, hcross⟩

namespace BlockSource

/-- A block that came again in a sound chain would have to ascend above itself. -/
theorem nodup_chainIds {source : BlockSource} {capacity : Nat} {chain : List StoredBlock}
    (hsound : SoundChain capacity chain)
    (hload : ∀ stored ∈ chain, source.load stored.id = .ok stored.block) :
    (chainIds chain).Nodup := by
  induction chain with
  | nil =>
      exact List.nodup_nil
  | cons stored rest ih =>
      rcases soundChain_cons.mp hsound with ⟨hfilled, _, _, hrest, hcross⟩
      apply List.nodup_cons.mpr
      constructor
      · intro hmem
        rcases List.mem_map.mp hmem with ⟨other, hother, hid⟩
        have hagain := hload other (List.mem_cons_of_mem _ hother)
        rw [hid, hload stored (by simp)] at hagain
        have hblock : stored.block = other.block := Except.ok.inj hagain
        rcases List.exists_mem_of_ne_nil _ hfilled with ⟨posting, hposting⟩
        have hbehind : posting ∈ chainPostings rest :=
          List.mem_flatMap.mpr ⟨other, hother, hblock ▸ hposting⟩
        exact UInt32.lt_irrefl _ (hcross posting hposting posting hbehind)
      · exact ih hrest fun other hmem => hload other (List.mem_cons_of_mem _ hmem)

theorem Holds.nodup_chainIds {source : BlockSource} {capacity : Nat}
    {chain : List StoredBlock} (hheld : source.Holds chain)
    (hsound : SoundChain capacity chain) : (chainIds chain).Nodup :=
  BlockSource.nodup_chainIds hsound fun stored hmem => (hheld.stored stored hmem).right

theorem length_le_count {source : BlockSource} {chain : List StoredBlock}
    (hnodup : (chainIds chain).Nodup)
    (hlt : ∀ stored ∈ chain, stored.id.toNat < source.count) :
    chain.length ≤ source.count := by
  have hids : ∀ id ∈ chainIds chain, id.toNat < source.count := by
    intro id hid
    rcases List.mem_map.mp hid with ⟨stored, hstored, heq⟩
    rw [← heq]
    exact hlt stored hstored
  have hlength := length_le_of_nodup_of_lt hnodup hids
  simpa [chainIds] using hlength

theorem Holds.length_le {source : BlockSource} {capacity : Nat}
    {chain : List StoredBlock} (hheld : source.Holds chain)
    (hsound : SoundChain capacity chain) : chain.length ≤ source.count :=
  length_le_count (hheld.nodup_chainIds hsound) fun stored hmem =>
    (hheld.stored stored hmem).left

end BlockSource

/-!
## The check of a block
-/

def lastGameOr (previous : Option GameId) (postings : List Posting) : Option GameId :=
  (postings.getLast?.map Posting.game).or previous

theorem lastGameOr_append (previous : Option GameId) (first second : List Posting) :
    lastGameOr previous (first ++ second) =
      lastGameOr (lastGameOr previous first) second := by
  simp [lastGameOr, List.getLast?_append, Option.map_or, Option.or_assoc]

namespace Posting

theorem Ordered.forall_lt_iff {postings : List Posting} (h : Ordered postings)
    {last : Posting} (hlast : postings.getLast? = some last) {game : GameId} :
    (∀ posting ∈ postings, posting.game < game) ↔ last.game < game := by
  rcases List.getLast?_eq_some_iff.mp hlast with ⟨front, hfront⟩
  constructor
  · intro hall
    exact hall last (by simp [hfront])
  · intro hlt posting hmem
    rw [hfront] at hmem h
    have hcross := (ordered_append.mp h).right.right
    rcases List.mem_append.mp hmem with hmem | hmem
    · exact UInt32.lt_trans (hcross posting hmem last (by simp)) hlt
    · rw [List.mem_singleton.mp hmem]
      exact hlt

theorem Ordered.forall_lt_of_lastGameOr {postings behind : List Posting}
    (h : Ordered postings) {previous : Option GameId}
    (hbehind : ∀ game ∈ lastGameOr previous postings, ∀ posting ∈ behind,
      game < posting.game) :
    ∀ before ∈ postings, ∀ after ∈ behind, before.game < after.game := by
  intro before hbefore after hafter
  cases hlast : postings.getLast? with
  | none =>
      rw [List.getLast?_eq_none_iff.mp hlast] at hbefore
      cases hbefore
  | some last =>
      have hlt := hbehind last.game (by simp [lastGameOr, hlast]) after hafter
      exact (h.forall_lt_iff hlast).mpr hlt before hbefore

theorem ordered_cons {posting : Posting} {rest : List Posting} :
    Ordered (posting :: rest) ↔
      posting.count ≠ 0 ∧ Ordered rest ∧ ∀ after ∈ rest, posting.game < after.game := by
  constructor
  · intro h
    exact ⟨h.positive posting (by simp), h.sublist (List.sublist_cons_self _ _),
      (List.pairwise_cons.mp h.ascending).left⟩
  · intro h
    rcases h with ⟨hpos, hrest, hall⟩
    constructor
    · exact List.pairwise_cons.mpr ⟨hall, hrest.ascending⟩
    · intro other hmem
      rcases List.mem_cons.mp hmem with heq | hmem
      · exact heq ▸ hpos
      · exact hrest.positive other hmem

end Posting

namespace Block

theorem checkOrder_cons (previous : Option GameId) (posting : Posting)
    (rest : List Posting) :
    checkOrder previous (posting :: rest) =
      if posting.count = 0 then
        .error (.zeroCount posting.game)
      else if posting.game ≤ previous.getD 0 ∧ previous.isSome then
        .error (.outOfOrder posting.game (previous.getD 0))
      else
        checkOrder (some posting.game) rest := by
  cases previous with
  | none =>
      rw [checkOrder.eq_def]
      simp
  | some last =>
      rw [checkOrder.eq_def]
      simp

theorem checkOrder_eq_ok {previous last : Option GameId} {postings : List Posting} :
    checkOrder previous postings = .ok last ↔
      Posting.Ordered postings ∧
        (∀ game ∈ previous, ∀ posting ∈ postings, game < posting.game) ∧
          lastGameOr previous postings = last := by
  induction postings generalizing previous with
  | nil =>
      simp [checkOrder, Posting.ordered_nil, lastGameOr]
  | cons posting rest ih =>
      have hlast : lastGameOr (some posting.game) rest =
          lastGameOr previous (posting :: rest) := by
        cases rest with
        | nil =>
            simp [lastGameOr]
        | cons next rest =>
            simp [lastGameOr, List.getLast?_cons_cons]
            cases h : (next :: rest).getLast? with
            | none =>
                simp at h
            | some found =>
                simp
      rw [checkOrder_cons, Posting.ordered_cons]
      by_cases hzero : posting.count = 0
      · simp [hzero]
      · by_cases hlate : posting.game ≤ previous.getD 0 ∧ previous.isSome
        · rw [if_neg hzero, if_pos hlate]
          constructor
          · intro h
            cases h
          · intro h
            rcases Option.isSome_iff_exists.mp hlate.right with ⟨before, hbefore⟩
            have hlt := h.right.left before hbefore posting (by simp)
            rw [hbefore] at hlate
            exact absurd (UInt32.lt_of_lt_of_le hlt hlate.left) (UInt32.lt_irrefl _)
        · rw [if_neg hzero, if_neg hlate, ih, hlast]
          simp only [Option.mem_def, Option.some.injEq, forall_eq']
          constructor
          · intro h
            refine ⟨⟨hzero, h.left, h.right.left⟩, ?_, h.right.right⟩
            intro before hbefore other hmem
            have hlt : before < posting.game := by
              simpa [hbefore] using hlate
            rcases List.mem_cons.mp hmem with heq | hmem
            · exact heq ▸ hlt
            · exact UInt32.lt_trans hlt (h.right.left other hmem)
          · intro h
            exact ⟨h.left.right.left, h.left.right.right, h.right.right⟩

theorem check_eq_ok {capacity : Nat} {previous last : Option GameId} {block : Block} :
    block.check capacity previous = .ok last ↔
      block.postings ≠ [] ∧ block.postings.length ≤ capacity ∧
        Posting.Ordered block.postings ∧
          (∀ game ∈ previous, ∀ posting ∈ block.postings, game < posting.game) ∧
            lastGameOr previous block.postings = last := by
  unfold check
  by_cases hempty : block.postings = []
  · simp [hempty]
  · by_cases hfull : capacity < block.postings.length
    · simp [hempty, hfull, Nat.not_le.mpr hfull]
    · simp [hempty, hfull, Nat.not_lt.mp hfull, checkOrder_eq_ok]

end Block

/-!
## The walk
-/

namespace BlockSource

/-- What a chain must satisfy to be accepted behind blocks that end in `previous`. -/
structure Continues (source : BlockSource) (capacity : Nat) (previous : Option GameId)
    (head : Option BlockId) (chain : List StoredBlock) : Prop where
  starts : chainHead chain = head
  held : source.Holds chain
  sound : SoundChain capacity chain
  above : ∀ game ∈ previous, ∀ posting ∈ chainPostings chain, game < posting.game

theorem continues_none {source : BlockSource} {capacity : Nat} {previous : Option GameId}
    {chain : List StoredBlock} :
    Continues source capacity previous none chain ↔ chain = [] := by
  constructor
  · intro h
    cases chain with
    | nil =>
        rfl
    | cons stored rest =>
        have hstart := h.starts
        simp [chainHead] at hstart
  · intro h
    subst h
    exact ⟨rfl, ⟨trivial, fun _ hmem => by cases hmem⟩, soundChain_nil capacity,
      fun _ _ _ hmem => by cases hmem⟩

theorem Continues.exists_rest {source : BlockSource} {capacity : Nat}
    {previous : Option GameId} {id : BlockId} {chain : List StoredBlock}
    (h : Continues source capacity previous (some id) chain) :
    ∃ block last rest, id.toNat < source.count ∧ source.load id = .ok block ∧
      block.check capacity previous = .ok last ∧
        Continues source capacity last block.next rest ∧ chain = { id, block } :: rest := by
  cases chain with
  | nil =>
      have hstart := h.starts
      simp [chainHead] at hstart
  | cons stored rest =>
      rcases holds_cons.mp h.held with ⟨⟨hlt, hload⟩, hnext, hrest⟩
      rcases soundChain_cons.mp h.sound with ⟨hfilled, hfits, hleft, hsound, hcross⟩
      have hid : stored.id = id := by
        simpa [chainHead] using h.starts
      have habove := h.above
      rw [chainPostings_cons] at habove
      subst hid
      refine ⟨stored.block, lastGameOr previous stored.block.postings, rest, hlt, hload,
        ?_, ?_, rfl⟩
      · exact Block.check_eq_ok.mpr ⟨hfilled, hfits, hleft,
          fun game hgame posting hmem =>
            habove game hgame posting (List.mem_append_left _ hmem), rfl⟩
      · refine ⟨hnext.symm, hrest, hsound, ?_⟩
        intro game hgame posting hmem
        cases hlast : stored.block.postings.getLast? with
        | none =>
            exact absurd (List.getLast?_eq_none_iff.mp hlast) hfilled
        | some last =>
            have hgameEq : last.game = game := by
              simpa [lastGameOr, hlast] using hgame
            rw [← hgameEq]
            exact hcross last (List.mem_of_getLast? hlast) posting hmem

theorem Continues.cons {source : BlockSource} {capacity : Nat}
    {previous last : Option GameId} {id : BlockId} {block : Block}
    {rest : List StoredBlock} (hlt : id.toNat < source.count)
    (hload : source.load id = .ok block) (hcheck : block.check capacity previous = .ok last)
    (h : Continues source capacity last block.next rest) :
    Continues source capacity previous (some id) ({ id, block } :: rest) := by
  rcases Block.check_eq_ok.mp hcheck with ⟨hfilled, hfits, hordered, habove, hlast⟩
  have hcross := hordered.forall_lt_of_lastGameOr (hlast ▸ h.above)
  refine ⟨rfl, holds_cons.mpr ⟨⟨hlt, hload⟩, h.starts.symm, h.held⟩,
    soundChain_cons.mpr ⟨hfilled, hfits, hordered, h.sound, hcross⟩, ?_⟩
  intro game hgame posting hmem
  rw [chainPostings_cons] at hmem
  rcases List.mem_append.mp hmem with hmem | hmem
  · exact habove game hgame posting hmem
  · cases hpostings : block.postings with
    | nil =>
        exact absurd hpostings hfilled
    | cons first others =>
        have hfirst : first ∈ block.postings := by simp [hpostings]
        exact UInt32.lt_trans (habove game hgame first hfirst)
          (hcross first hfirst posting hmem)

theorem continues_some {source : BlockSource} {capacity : Nat} {previous : Option GameId}
    {id : BlockId} {chain : List StoredBlock} :
    Continues source capacity previous (some id) chain ↔
      ∃ block last rest, id.toNat < source.count ∧ source.load id = .ok block ∧
        block.check capacity previous = .ok last ∧
          Continues source capacity last block.next rest ∧
            chain = { id, block } :: rest := by
  constructor
  · intro h
    exact h.exists_rest
  · intro h
    rcases h with ⟨block, last, rest, hlt, hload, hcheck, hrest, hchain⟩
    rw [hchain]
    exact hrest.cons hlt hload hcheck

theorem result_follow_eq_ok {source : BlockSource} {capacity fuel : Nat}
    {visited all : List StoredBlock} {previous : Option GameId} {head : Option BlockId} :
    (source.follow capacity fuel visited previous head).result = .ok all ↔
      ∃ chain, Continues source capacity previous head chain ∧ chain.length ≤ fuel ∧
        all = visited.reverse ++ chain := by
  induction fuel generalizing visited previous head with
  | zero =>
      cases head with
      | none =>
          simp [follow, Walk.result, continues_none, eq_comm]
      | some id =>
          constructor
          · intro h
            by_cases hlt : source.count ≤ id.toNat
            · simp [follow, hlt, Walk.result] at h
            · simp [follow, hlt, Walk.result] at h
          · intro h
            rcases h with ⟨chain, hcont, hlen, _⟩
            rcases hcont.exists_rest with ⟨_, _, _, _, _, _, _, hchain⟩
            rw [hchain] at hlen
            exact absurd hlen (Nat.not_succ_le_zero _)
  | succ fuel ih =>
      cases head with
      | none =>
          simp [follow, Walk.result, continues_none, eq_comm]
      | some id =>
          simp only [continues_some, follow]
          by_cases hlt : source.count ≤ id.toNat
          · simp [hlt, Walk.result, Nat.not_lt.mpr hlt]
          · cases hload : source.load id with
            | error error =>
                simp [hlt, Walk.result]
            | ok block =>
                cases hcheck : block.check capacity previous with
                | error fault =>
                    simp [hlt, hcheck, Walk.result]
                | ok last =>
                    simp only [hlt, if_false, hcheck, ih]
                    constructor
                    · intro h
                      rcases h with ⟨rest, hcont, hlen, hall⟩
                      refine ⟨{ id, block } :: rest, ?_, ?_, ?_⟩
                      · exact ⟨block, last, rest, Nat.not_le.mp hlt, rfl, hcheck, hcont,
                          rfl⟩
                      · simpa using hlen
                      · simpa using hall
                    · intro h
                      rcases h with ⟨chain, ⟨block', last', rest, _, hload', hcheck',
                        hcont, hchain⟩, hlen, hall⟩
                      cases hload'
                      rw [hcheck] at hcheck'
                      cases hcheck'
                      subst hchain
                      exact ⟨rest, hcont, by simpa using hlen, by simpa using hall⟩

/-- The walk accepts exactly the sound chains that the source holds. -/
theorem chain_eq_ok {source : BlockSource} {capacity : Nat} {head : Option BlockId}
    {chain : List StoredBlock} :
    source.chain capacity head = .ok chain ↔
      chainHead chain = head ∧ source.Holds chain ∧ SoundChain capacity chain := by
  rw [BlockSource.chain, walk, result_follow_eq_ok]
  constructor
  · intro h
    rcases h with ⟨found, hcont, _, hall⟩
    have heq : chain = found := by simpa using hall
    subst heq
    exact ⟨hcont.starts, hcont.held, hcont.sound⟩
  · intro h
    rcases h with ⟨hstart, hheld, hsound⟩
    refine ⟨chain, ⟨hstart, hheld, hsound, ?_⟩, hheld.length_le hsound, by simp⟩
    intro game hgame
    cases hgame

end BlockSource

end PostingIndex
