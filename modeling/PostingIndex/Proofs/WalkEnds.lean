import PostingIndex.Proofs.ChainWalk

/-!
# Where a walk ends

A walk goes along the links from a head for as long as the blocks there form a
sound row, and makes one round for each of them.  It ends where the links end, or
at the first link to a block that is out of range, was visited already, cannot be
loaded or breaks a rule; the error then names this block.

## Contents

The first rule that a block breaks, links that lead along some blocks, the reasons
for which a walk stops, and the end of every walk.
-/

namespace PostingIndex

/-!
## The first rule that a block breaks
-/

namespace Posting

def OrderedAbove (previous : Option GameId) (postings : List Posting) : Prop :=
  Ordered postings ∧ ∀ game ∈ previous, ∀ posting ∈ postings, game < posting.game

/-- The first posting of a list that does not follow those before it as it should. -/
inductive Breaks (previous : Option GameId) (postings : List Posting) :
    ChainFault -> Prop where
  | zeroCount {before after : List Posting} {posting : Posting} :
      postings = before ++ posting :: after -> OrderedAbove previous before ->
        posting.count = 0 -> Breaks previous postings (.zeroCount posting.game)
  | outOfOrder {before after : List Posting} {posting : Posting} {last : GameId} :
      postings = before ++ posting :: after -> OrderedAbove previous before ->
        posting.count ≠ 0 -> lastGameOr previous before = some last ->
          posting.game ≤ last -> Breaks previous postings (.outOfOrder posting.game last)

theorem orderedAbove_nil (previous : Option GameId) : OrderedAbove previous [] :=
  ⟨ordered_nil, fun _ _ _ hmem => by cases hmem⟩

theorem orderedAbove_iff {previous : Option GameId} {postings : List Posting} :
    OrderedAbove previous postings ↔
      Block.checkOrder previous postings = .ok (lastGameOr previous postings) := by
  rw [Block.checkOrder_eq_ok, OrderedAbove]
  simp

theorem Breaks.cons {previous : Option GameId} {posting : Posting} {rest : List Posting}
    {fault : ChainFault} (hcount : posting.count ≠ 0)
    (hlate : ¬ (posting.game ≤ previous.getD 0 ∧ previous.isSome))
    (h : Breaks (some posting.game) rest fault) :
    Breaks previous (posting :: rest) fault := by
  have hcheck : ∀ postings, Block.checkOrder previous (posting :: postings) =
      Block.checkOrder (some posting.game) postings := by
    intro postings
    rw [Block.checkOrder_cons, if_neg hcount, if_neg hlate]
  have hordered : ∀ {before}, OrderedAbove (some posting.game) before ->
      OrderedAbove previous (posting :: before) ∧
        lastGameOr previous (posting :: before) = lastGameOr (some posting.game) before := by
    intro before hbefore
    have hok := orderedAbove_iff.mp hbefore
    rw [← hcheck, Block.checkOrder_eq_ok] at hok
    exact ⟨⟨hok.left, hok.right.left⟩, hok.right.right⟩
  cases h with
  | zeroCount heq hbefore hzero =>
      exact .zeroCount (by rw [heq]; rfl) (hordered hbefore).left hzero
  | outOfOrder heq hbefore hpositive hlast hle =>
      rcases hordered hbefore with ⟨habove, hsame⟩
      exact .outOfOrder (by rw [heq]; rfl) habove hpositive (hsame.trans hlast) hle

theorem breaks_of_checkOrder {previous : Option GameId} {postings : List Posting}
    {fault : ChainFault} (h : Block.checkOrder previous postings = .error fault) :
    Breaks previous postings fault := by
  induction postings generalizing previous with
  | nil =>
      cases h
  | cons posting rest ih =>
      rw [Block.checkOrder_cons] at h
      by_cases hzero : posting.count = 0
      · rw [if_pos hzero] at h
        cases h
        exact .zeroCount rfl (orderedAbove_nil previous) hzero
      · rw [if_neg hzero] at h
        by_cases hlate : posting.game ≤ previous.getD 0 ∧ previous.isSome
        · rw [if_pos hlate] at h
          cases h
          rcases Option.isSome_iff_exists.mp hlate.right with ⟨last, hlast⟩
          subst hlast
          exact .outOfOrder rfl (orderedAbove_nil _) hzero rfl hlate.left
        · rw [if_neg hlate] at h
          exact (ih h).cons hzero hlate

end Posting

/-- The first rule that a block breaks behind blocks with the given last game. -/
inductive Block.Breaks (capacity : Nat) (previous : Option GameId) (block : Block) :
    ChainFault -> Prop where
  | empty : block.postings = [] -> Breaks capacity previous block .emptyBlock
  | overfull : capacity < block.postings.length ->
      Breaks capacity previous block (.overfull block.postings.length capacity)
  | unordered {fault : ChainFault} : block.postings ≠ [] ->
      block.postings.length ≤ capacity -> Posting.Breaks previous block.postings fault ->
        Breaks capacity previous block fault

theorem Block.breaks_of_check {capacity : Nat} {previous : Option GameId} {block : Block}
    {fault : ChainFault} (h : block.check capacity previous = .error fault) :
    block.Breaks capacity previous fault := by
  unfold check at h
  by_cases hempty : block.postings = []
  · simp only [hempty, List.isEmpty_nil, if_true] at h
    cases h
    exact .empty hempty
  · by_cases hfull : capacity < block.postings.length
    · simp only [List.isEmpty_iff, hempty, hfull, if_true, if_false] at h
      cases h
      exact .overfull hfull
    · simp only [List.isEmpty_iff, hempty, hfull, if_false] at h
      exact .unordered hempty (Nat.not_lt.mp hfull) (Posting.breaks_of_checkOrder h)

theorem SoundChain.snoc {capacity : Nat} {chain : List StoredBlock}
    (h : SoundChain capacity chain) (id : BlockId) {block : Block} {last : Option GameId}
    (hcheck : block.check capacity (lastGameOr none (chainPostings chain)) = .ok last) :
    SoundChain capacity (chain ++ [({ id, block } : StoredBlock)]) ∧
      lastGameOr none (chainPostings (chain ++ [({ id, block } : StoredBlock)])) = last := by
  rcases Block.check_eq_ok.mp hcheck with ⟨hfilled, hfits, hordered, habove, hlast⟩
  have hpostings : chainPostings (chain ++ [({ id, block } : StoredBlock)]) =
      chainPostings chain ++ block.postings := by
    simp [chainPostings]
  rw [hpostings]
  constructor
  · constructor
    · intro other hmem
      rcases List.mem_append.mp hmem with hmem | hmem
      · exact h.filled other hmem
      · rw [List.mem_singleton.mp hmem]
        exact hfilled
    · intro other hmem
      rcases List.mem_append.mp hmem with hmem | hmem
      · exact h.fits other hmem
      · rw [List.mem_singleton.mp hmem]
        exact hfits
    · rw [hpostings]
      exact Posting.ordered_append.mpr
        ⟨h.ordered, hordered, h.ordered.forall_lt_of_lastGameOr habove⟩
  · rw [lastGameOr_append]
    exact hlast

/-- One round for each visited block, and one more for a link that was not followed. -/
def Walk.rounds (walk : Walk) : Nat :=
  walk.visited.length + walk.stop.toList.length

/-!
## Links that lead along some blocks
-/

namespace BlockSource

variable {source : BlockSource} {capacity : Nat} {head link : Option BlockId}
  {chain : List StoredBlock} {id : BlockId} {block : Block}

inductive LeadsTo (source : BlockSource) :
    Option BlockId -> List StoredBlock -> Option BlockId -> Prop where
  | here (link : Option BlockId) : LeadsTo source link [] link
  | next {id : BlockId} {block : Block} {rest : List StoredBlock} {link : Option BlockId} :
      id.toNat < source.count -> source.load id = .ok block ->
        LeadsTo source block.next rest link ->
          LeadsTo source (some id) ({ id, block } :: rest) link

theorem LeadsTo.snoc (h : source.LeadsTo head chain (some id)) (hlt : id.toNat < source.count)
    (hload : source.load id = .ok block) :
    source.LeadsTo head (chain ++ [({ id, block } : StoredBlock)]) block.next := by
  generalize hlink : some id = link at h
  induction h with
  | here link =>
      subst hlink
      exact .next hlt hload (.here block.next)
  | next hfirst hloadFirst _ ih =>
      exact .next hfirst hloadFirst (ih hlink)

theorem LeadsTo.stored (h : source.LeadsTo head chain link) :
    ∀ stored ∈ chain,
      stored.id.toNat < source.count ∧ source.load stored.id = .ok stored.block := by
  induction h with
  | here link =>
      intro stored hmem
      cases hmem
  | next hlt hload _ ih =>
      intro stored hmem
      rcases List.mem_cons.mp hmem with heq | hmem
      · subst heq
        exact ⟨hlt, hload⟩
      · exact ih stored hmem

theorem leadsTo_none_iff :
    source.LeadsTo head chain none ↔ chainHead chain = head ∧ source.Holds chain := by
  constructor
  · intro h
    generalize hlink : none = link at h
    induction h with
    | here link =>
        subst hlink
        exact ⟨rfl, trivial, fun _ hmem => by cases hmem⟩
    | next hlt hload _ ih =>
        rcases ih hlink with ⟨hhead, hrest⟩
        exact ⟨rfl, holds_cons.mpr ⟨⟨hlt, hload⟩, hhead.symm, hrest⟩⟩
  · intro h
    induction chain generalizing head with
    | nil =>
        rw [← h.left]
        exact .here none
    | cons stored rest ih =>
        rcases holds_cons.mp h.right with ⟨⟨hlt, hload⟩, hnext, hrest⟩
        rw [← h.left]
        exact .next hlt hload (ih ⟨hnext.symm, hrest⟩)

/-- The links from a head lead along a sound row of blocks to another link. -/
structure Reaches (source : BlockSource) (capacity : Nat) (head : Option BlockId)
    (chain : List StoredBlock) (link : Option BlockId) : Prop where
  leads : source.LeadsTo head chain link
  sound : SoundChain capacity chain

theorem chain_eq_ok_iff_reaches :
    source.chain capacity head = .ok chain ↔ source.Reaches capacity head chain none := by
  rw [chain_eq_ok]
  constructor
  · intro h
    exact ⟨leadsTo_none_iff.mpr ⟨h.left, h.right.left⟩, h.right.right⟩
  · intro h
    rcases leadsTo_none_iff.mp h.leads with ⟨hhead, hheld⟩
    exact ⟨hhead, hheld, h.sound⟩

namespace Reaches

theorem start (source : BlockSource) (capacity : Nat) (head : Option BlockId) :
    source.Reaches capacity head [] head :=
  ⟨.here head, soundChain_nil capacity⟩

theorem snoc (h : source.Reaches capacity head chain (some id))
    (hlt : id.toNat < source.count) (hload : source.load id = .ok block)
    {last : Option GameId}
    (hcheck : block.check capacity (lastGameOr none (chainPostings chain)) = .ok last) :
    source.Reaches capacity head (chain ++ [({ id, block } : StoredBlock)]) block.next :=
  ⟨h.leads.snoc hlt hload, (h.sound.snoc id hcheck).left⟩

theorem nodup (h : source.Reaches capacity head chain link) : (chainIds chain).Nodup :=
  nodup_chainIds h.sound fun stored hmem => (h.leads.stored stored hmem).right

theorem length_le (h : source.Reaches capacity head chain link) :
    chain.length ≤ source.count :=
  length_le_count h.nodup fun stored hmem => (h.leads.stored stored hmem).left

/-- Where as many blocks were visited as there are, the next one was visited already. -/
theorem mem_of_length_eq (h : source.Reaches capacity head chain (some id))
    (hlt : id.toNat < source.count) (hlength : chain.length = source.count) :
    id ∈ chainIds chain := by
  by_contra hnew
  have hnodup : (id :: chainIds chain).Nodup := List.nodup_cons.mpr ⟨hnew, h.nodup⟩
  have hall : ∀ other ∈ id :: chainIds chain, other.toNat < source.count := by
    intro other hmem
    rcases List.mem_cons.mp hmem with heq | hmem
    · rw [heq]
      exact hlt
    · rcases List.mem_map.mp hmem with ⟨stored, hstored, heq⟩
      rw [← heq]
      exact (h.leads.stored stored hstored).left
  have hle := length_le_of_nodup_of_lt hnodup hall
  rw [List.length_cons, chainIds, List.length_map, hlength] at hle
  exact Nat.not_succ_le_self _ hle

end Reaches

/-!
## The end of a walk
-/

/-- Why a walk that visited some blocks stops at the link to the next one. -/
inductive StopsAt (source : BlockSource) (capacity : Nat) (visited : List StoredBlock)
    (id : BlockId) : IndexError -> Prop where
  | outOfRange : source.count ≤ id.toNat ->
      StopsAt source capacity visited id (.corruptChain id (.linkBeyond source.count))
  | visited : id.toNat < source.count -> visited.length = source.count ->
      id ∈ chainIds visited -> StopsAt source capacity visited id (.corruptChain id .cycle)
  | unloadable {error : IndexError} : id.toNat < source.count ->
      visited.length < source.count -> source.load id = .error error ->
        StopsAt source capacity visited id error
  | unsound {block : Block} {fault : ChainFault} : id.toNat < source.count ->
      visited.length < source.count -> source.load id = .ok block ->
        block.Breaks capacity (lastGameOr none (chainPostings visited)) fault ->
          StopsAt source capacity visited id (.corruptChain id fault)

theorem StopsAt.exists_fault {visited : List StoredBlock} {error : IndexError}
    (h : source.StopsAt capacity visited id error)
    (hloaded : ∀ stored ∈ visited, source.load stored.id = .ok stored.block)
    (hmem : id ∈ chainIds visited) : ∃ fault, error = .corruptChain id fault := by
  cases h with
  | outOfRange _ =>
      exact ⟨_, rfl⟩
  | visited _ _ _ =>
      exact ⟨_, rfl⟩
  | unloadable _ _ hload =>
      rcases List.mem_map.mp hmem with ⟨stored, hstored, hid⟩
      rw [← hid, hloaded stored hstored] at hload
      cases hload
  | unsound _ _ _ _ =>
      exact ⟨_, rfl⟩

/-- What a walk from a head came to. -/
inductive Ends (source : BlockSource) (capacity : Nat) (head : Option BlockId) :
    Walk -> Prop where
  | finished {visited : List StoredBlock} : source.Reaches capacity head visited none ->
      Ends source capacity head { visited, stop := none }
  | stopped {visited : List StoredBlock} {id : BlockId} {error : IndexError} :
      source.Reaches capacity head visited (some id) ->
        source.StopsAt capacity visited id error ->
          Ends source capacity head { visited, stop := some error }

/--
Following links behind a sound row.  The blocks visited and the steps that are
left make up the number of blocks.
-/
theorem ends_follow {fuel : Nat} {visited : List StoredBlock}
    (h : source.Reaches capacity head visited.reverse link)
    (hfuel : visited.length + fuel = source.count) :
    source.Ends capacity head (source.follow capacity fuel visited
      (lastGameOr none (chainPostings visited.reverse)) link) := by
  induction fuel generalizing visited link with
  | zero =>
      cases link with
      | none =>
          exact .finished h
      | some id =>
          by_cases hlt : source.count ≤ id.toNat
          · simp only [follow, if_pos hlt]
            exact .stopped h (.outOfRange hlt)
          · simp only [follow, if_neg hlt]
            have hlength : visited.reverse.length = source.count := by
              rw [List.length_reverse]
              exact hfuel
            have hmem := h.mem_of_length_eq (Nat.not_le.mp hlt) hlength
            exact .stopped h (.visited (Nat.not_le.mp hlt) hlength hmem)
  | succ fuel ih =>
      cases link with
      | none =>
          exact .finished h
      | some id =>
          by_cases hlt : source.count ≤ id.toNat
          · simp only [follow, if_pos hlt]
            exact .stopped h (.outOfRange hlt)
          · have hrange : id.toNat < source.count := Nat.not_le.mp hlt
            have hroom : visited.reverse.length < source.count := by
              rw [List.length_reverse]
              omega
            simp only [follow, if_neg hlt]
            cases hload : source.load id with
            | error error =>
                exact .stopped h (.unloadable hrange hroom hload)
            | ok block =>
                cases hcheck : block.check capacity
                    (lastGameOr none (chainPostings visited.reverse)) with
                | error fault =>
                    simp only [hcheck]
                    exact .stopped h
                      (.unsound hrange hroom hload (Block.breaks_of_check hcheck))
                | ok last =>
                    have hnext := h.snoc hrange hload hcheck
                    have hlast := (h.sound.snoc id hcheck).right
                    rw [← List.reverse_cons] at hnext hlast
                    have hrest := ih hnext (by rw [List.length_cons]; omega)
                    rw [hlast] at hrest
                    simp only [hcheck]
                    exact hrest

theorem ends_walk (source : BlockSource) (capacity : Nat) (head : Option BlockId) :
    source.Ends capacity head (source.walk capacity head) :=
  ends_follow (Reaches.start source capacity head) (Nat.zero_add _)

theorem Ends.rounds_le {walk : Walk} (h : source.Ends capacity head walk) :
    walk.rounds ≤ source.count + 1 := by
  cases h with
  | finished hreach =>
      exact Nat.le_succ_of_le hreach.length_le
  | stopped hreach _ =>
      exact Nat.succ_le_succ hreach.length_le

theorem Ends.nodup {walk : Walk} (h : source.Ends capacity head walk) :
    (chainIds walk.visited).Nodup := by
  cases h with
  | finished hreach =>
      exact hreach.nodup
  | stopped hreach _ =>
      exact hreach.nodup

/--
A walk makes at most one round more than there are blocks and visits no block twice.
It accepts exactly the sound rows that the links form from the head to their end.
Otherwise it has visited the sound row up to the first block that is out of range,
was visited before, cannot be loaded or breaks a rule, and fails for this reason.
-/
theorem walk_ends_at_first_fault (source : BlockSource) (capacity : Nat)
    (head : Option BlockId) :
    (source.walk capacity head).rounds ≤ source.count + 1 ∧
      (chainIds (source.walk capacity head).visited).Nodup ∧
        (∀ length, (source.chain capacity head).map List.length = .ok length ↔
          ∃ chain, source.Reaches capacity head chain none ∧ chain.length = length) ∧
          (∀ chain, source.Reaches capacity head chain none ->
            source.chain capacity head = .ok chain ∧
              source.postings capacity head = .ok (chainPostings chain)) ∧
            ((¬ ∃ chain, source.Reaches capacity head chain none) ->
              ∃ id error,
                source.Reaches capacity head (source.walk capacity head).visited (some id) ∧
                  source.StopsAt capacity (source.walk capacity head).visited id error ∧
                    (id ∈ chainIds (source.walk capacity head).visited ->
                      ∃ fault, error = .corruptChain id fault) ∧
                      source.chain capacity head = .error error ∧
                        source.postings capacity head = .error error) := by
  have hends := ends_walk source capacity head
  refine ⟨hends.rounds_le, hends.nodup, ?_, ?_, ?_⟩
  · intro length
    rw [Outcome.map_eq_ok]
    constructor
    · intro h
      rcases h with ⟨chain, hchain, hlength⟩
      exact ⟨chain, chain_eq_ok_iff_reaches.mp hchain, hlength⟩
    · intro h
      rcases h with ⟨chain, hreach, hlength⟩
      exact ⟨chain, chain_eq_ok_iff_reaches.mpr hreach, hlength⟩
  · intro chain hreach
    have hchain := chain_eq_ok_iff_reaches.mpr hreach
    exact ⟨hchain, by rw [postings, hchain]; rfl⟩
  · intro hnone
    generalize hwalk : source.walk capacity head = walk at hends
    cases hends with
    | finished hreach =>
        exact absurd ⟨_, hreach⟩ hnone
    | @stopped _ id error hreach hstop =>
        have hchain : source.chain capacity head = .error error := by
          rw [chain, hwalk, Walk.result]
        refine ⟨id, error, hreach, hstop, ?_, hchain, by rw [postings, hchain]; rfl⟩
        exact hstop.exists_fault fun stored hmem => (hreach.leads.stored stored hmem).right

theorem reason_of_chain (reason : IndexError -> Prop) {error : IndexError}
    (hcorrupt : ∀ id fault, reason (.corruptChain id fault))
    (hload : ∀ id error, source.load id = .error error -> reason error)
    (h : source.chain capacity head = .error error) : reason error := by
  have hends := ends_walk source capacity head
  rw [chain] at h
  generalize source.walk capacity head = walk at h hends
  cases hends with
  | finished _ =>
      cases h
  | stopped _ hstop =>
      cases h
      cases hstop with
      | outOfRange _ =>
          exact hcorrupt _ _
      | visited _ _ _ =>
          exact hcorrupt _ _
      | unloadable _ _ hfail =>
          exact hload _ _ hfail
      | unsound _ _ _ _ =>
          exact hcorrupt _ _

end BlockSource

theorem Arena.exists_corruptChain_of_chain (arena : Arena) {capacity : Nat}
    {head : Option BlockId} {error : IndexError}
    (h : arena.source.chain capacity head = .error error) :
    ∃ block fault, error = .corruptChain block fault := by
  refine BlockSource.reason_of_chain
    (fun error => ∃ block fault, error = .corruptChain block fault)
    (fun id fault => ⟨id, fault, rfl⟩) ?_ h
  intro id error hload
  simp only [source] at hload
  cases hget : arena.get? id with
  | none =>
      rw [hget] at hload
      cases hload
      exact ⟨_, _, rfl⟩
  | some block =>
      rw [hget] at hload
      cases hload

end PostingIndex
