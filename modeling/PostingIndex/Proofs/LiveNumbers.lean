import Mathlib.Data.Set.Insert
import PostingIndex.File.Link
import PostingIndex.Proofs.PoolSupply

/-!
# Live block numbers

A number is live from the moment a pool hands it out until it is given back.  As long
as the users of a pool give back live numbers only, live and free numbers part the
numbers below the count, so no number is handed out to two users at once, and the
reserved one to none.  A request is answered as long as a number is left; the next one
for which there is none aborts.

## Contents

Books that record the live numbers of a pool, what a pool owes its users at a request,
one request, and rows of requests.
-/

namespace PostingIndex

namespace IdSet

theorem le_of_takeLeast? {set rest : IdSet} {id other : BlockId}
    (h : set.takeLeast? = some (id, rest)) (hmem : other ∈ set) : id ≤ other := by
  rcases set with ⟨ids, hids⟩
  cases ids with
  | nil =>
      simp [takeLeast?] at h
  | cons least others =>
      simp only [takeLeast?, Option.some.injEq, Prod.mk.injEq] at h
      rcases h with ⟨rfl, _⟩
      rcases List.mem_cons.mp hmem with heq | hrest
      · rw [heq]
        exact UInt32.le_refl _
      · exact UInt32.le_of_lt ((List.pairwise_cons.mp hids).left other hrest)

end IdSet

namespace Link

theorem ne_noBlock_of_lt {id count : UInt32} (h : id < count) : id ≠ noBlock :=
  UInt32.ne_of_lt (UInt32.lt_of_lt_of_le h (le_noBlock count))

end Link

namespace Pool

/-!
## Books
-/

inductive Request where
  | allocate
  | release (id : BlockId)

/-- A pool with a record of its live numbers. -/
structure Book where
  pool : Pool
  live : Set BlockId

namespace Book

def ofPool (pool : Pool) : Book :=
  { pool, live := {id | id < pool.numBlocks ∧ id ∉ pool.free} }

/-- The book after a request, unless it aborts. -/
def serve (book : Book) : Request -> Except IndexError Book
  | .allocate => do
      let (id, pool) ← book.pool.allocate
      return { pool, live := insert id book.live }
  | .release id => do
      let pool ← book.pool.release id
      return { pool, live := book.live \ {id} }

/-- What holds of a book and its next request all along a row, as far as it is answered. -/
def Along (property : Book -> Request -> Prop) : Book -> List Request -> Prop
  | _, [] => True
  | book, request :: rest =>
      property book request ∧
        ∀ next, book.serve request = .ok next -> Along property next rest

/-- Live and free numbers part the numbers below the count. -/
structure Parted (book : Book) : Prop where
  covered : ∀ id, id < book.pool.numBlocks ↔ id ∈ book.live ∨ id ∈ book.pool.free
  apart : ∀ id ∈ book.live, id ∉ book.pool.free

structure MayHandOut (book : Book) (id : BlockId) : Prop where
  least : (id ∈ book.pool.free ∧ ∀ other ∈ book.pool.free, id ≤ other) ∨
    ((∀ other, other ∉ book.pool.free) ∧ id = book.pool.numBlocks)
  unused : id ∉ book.live
  notReserved : id ≠ Link.noBlock

/-- What a pool owes its users at a request that leads to another book. -/
structure Serves (book : Book) (request : Request) (next : Book) : Prop where
  parted : next.Parted
  rises : book.pool.numBlocks ≤ next.pool.numBlocks
  answer : request = .allocate ->
    ∃ id, book.pool.allocate = .ok (id, next.pool) ∧ book.MayHandOut id

def ReturnsLive (book : Book) (request : Request) : Prop :=
  ∀ id, request = .release id -> id ∈ book.live

/-- A request is answered only as it should be. -/
def AnswersWell (book : Book) (request : Request) : Prop :=
  ∀ next, book.serve request = .ok next -> book.Serves request next

def Answers (book : Book) (request : Request) : Prop :=
  ∃ next, book.serve request = .ok next ∧ book.Serves request next

/-- A number is asked for only while one other than the reserved word is left. -/
def HasNumber (book : Book) (request : Request) : Prop :=
  request = .allocate -> book.pool.free.size = 0 -> book.pool.numBlocks ≠ Link.noBlock

theorem parted_ofPool {pool : Pool} (h : pool.FreeWithin) : (ofPool pool).Parted where
  covered := by
    intro id
    constructor
    · intro hlt
      by_cases hfree : id ∈ pool.free
      · exact Or.inr hfree
      · exact Or.inl ⟨hlt, hfree⟩
    · rintro (hlive | hfree)
      · exact hlive.left
      · exact h id hfree
  apart := fun _ hlive => hlive.right

/-!
## One request
-/

variable {book next : Book} {request : Request}

theorem serve_allocate_eq_ok :
    book.serve .allocate = .ok next ↔
      ∃ id, book.pool.allocate = .ok (id, next.pool) ∧ next.live = insert id book.live := by
  rcases next with ⟨pool, live⟩
  simp only [serve, Outcome.bind_eq_ok, Outcome.pure_eq_ok, Prod.exists, Book.mk.injEq]
  constructor
  · rintro ⟨id, found, hallocate, rfl, rfl⟩
    exact ⟨id, hallocate, rfl⟩
  · rintro ⟨id, hallocate, rfl⟩
    exact ⟨id, pool, hallocate, rfl, rfl⟩

theorem serve_release_eq_ok {id : BlockId} :
    book.serve (.release id) = .ok next ↔
      book.pool.release id = .ok next.pool ∧ next.live = book.live \ {id} := by
  rcases next with ⟨pool, live⟩
  simp only [serve, Outcome.bind_eq_ok, Outcome.pure_eq_ok, Book.mk.injEq]
  constructor
  · rintro ⟨found, hrelease, rfl, rfl⟩
    exact ⟨hrelease, rfl⟩
  · rintro ⟨hrelease, rfl⟩
    exact ⟨pool, hrelease, rfl, rfl⟩

theorem Parted.serves_release {id : BlockId} (h : book.Parted) (hlive : id ∈ book.live)
    (hserve : book.serve (.release id) = .ok next) : book.Serves (.release id) next := by
  rcases serve_release_eq_ok.mp hserve with ⟨hrelease, hafter⟩
  rcases Pool.release_eq_ok.mp hrelease with ⟨_, hpool⟩
  refine ⟨⟨?_, ?_⟩, ?_, nofun⟩
  · intro other
    rw [hafter, hpool]
    show other < book.pool.numBlocks ↔
      (other ∈ book.live ∧ other ≠ id) ∨ other ∈ book.pool.free.insert id
    rw [h.covered, IdSet.mem_insert]
    by_cases heq : other = id
    · simp [heq, hlive]
    · simp [heq]
  · rw [hafter, hpool]
    rintro other ⟨hother, hne⟩ hfree
    rcases IdSet.mem_insert.mp hfree with heq | hmem
    · exact hne heq
    · exact h.apart other hother hmem
  · rw [hpool]
    exact UInt32.le_refl _

theorem Parted.serves_allocate_free {id : BlockId} {free : IdSet} (h : book.Parted)
    (hleast : book.pool.free.takeLeast? = some (id, free))
    (hallocate : book.pool.allocate = .ok (id, next.pool))
    (hpool : next.pool = { book.pool with free }) (hafter : next.live = insert id book.live) :
    book.Serves .allocate next := by
  rcases IdSet.takeLeast?_eq_some hleast with ⟨hid, _, hfree⟩
  have hlt : id < book.pool.numBlocks := (h.covered id).mpr (Or.inr hid)
  have hunused : id ∉ book.live := fun hlive => h.apart id hlive hid
  refine ⟨⟨?_, ?_⟩, ?_, fun _ => ⟨id, hallocate, ⟨Or.inl ⟨hid, ?_⟩, hunused,
    Link.ne_noBlock_of_lt hlt⟩⟩⟩
  · intro other
    rw [hafter, hpool]
    show other < book.pool.numBlocks ↔ (other = id ∨ other ∈ book.live) ∨ other ∈ free
    rw [h.covered, hfree]
    by_cases heq : other = id
    · simp [heq, hid]
    · simp [heq]
  · rw [hafter, hpool]
    rintro other (heq | hlive) hmem
    · exact ((hfree other).mp hmem).right heq
    · exact h.apart other hlive ((hfree other).mp hmem).left
  · rw [hpool]
    exact UInt32.le_refl _
  · intro other hmem
    exact IdSet.le_of_takeLeast? hleast hmem

theorem Parted.serves_allocate_new (h : book.Parted) (hempty : book.pool.free.size = 0)
    (hallocate : book.pool.allocate = .ok (book.pool.numBlocks, next.pool))
    (hfree : next.pool.free = book.pool.free)
    (hcount : next.pool.numBlocks.toNat = book.pool.numBlocks.toNat + 1)
    (hafter : next.live = insert book.pool.numBlocks book.live) :
    book.Serves .allocate next := by
  have hnone := IdSet.not_mem_of_size_eq_zero hempty
  have hunused : book.pool.numBlocks ∉ book.live := fun hlive =>
    UInt32.lt_irrefl _ ((h.covered _).mpr (Or.inl hlive))
  have hlt : book.pool.numBlocks < next.pool.numBlocks := by
    rw [UInt32.lt_iff_toNat_lt, hcount]
    exact Nat.lt_succ_self _
  refine ⟨⟨?_, ?_⟩, UInt32.le_of_lt hlt, fun _ => ⟨_, hallocate, ⟨Or.inr ⟨hnone, rfl⟩, hunused,
    Link.ne_noBlock_of_lt hlt⟩⟩⟩
  · intro other
    rw [hafter, hfree]
    show other < next.pool.numBlocks ↔
      (other = book.pool.numBlocks ∨ other ∈ book.live) ∨ other ∈ book.pool.free
    rw [or_assoc, ← h.covered, UInt32.lt_iff_toNat_lt, hcount, UInt32.lt_iff_toNat_lt,
      ← UInt32.toNat_inj]
    omega
  · intro other _ hmem
    rw [hfree] at hmem
    exact hnone other hmem

theorem Parted.answersWell (h : book.Parted) (hlive : book.ReturnsLive request) :
    book.AnswersWell request := by
  intro next hserve
  cases request with
  | release id =>
      exact h.serves_release (hlive id rfl) hserve
  | allocate =>
      rcases serve_allocate_eq_ok.mp hserve with ⟨id, hallocate, hafter⟩
      rcases Pool.allocate_eq_ok.mp hallocate with
        ⟨free, hleast, hpool⟩ | ⟨hempty, rfl, hfree, hcount⟩
      · exact h.serves_allocate_free hleast hallocate hpool hafter
      · exact h.serves_allocate_new hempty hallocate hfree hcount hafter

theorem remaining_eq_zero_iff {pool : Pool} :
    pool.remaining = 0 ↔ pool.free.size = 0 ∧ pool.numBlocks = Link.noBlock := by
  have hlt := pool.numBlocks.toNat_lt
  have hreserved : Link.noBlock.toNat = 2 ^ 32 - 1 := rfl
  rw [Pool.remaining, ← UInt32.toNat_inj, hreserved]
  omega

theorem serve_allocate_of_not_hasNumber (h : ¬ book.HasNumber .allocate) :
    book.serve .allocate = .error (.aborted .addOverflow) := by
  simp only [HasNumber, forall_const, Classical.not_imp, not_not] at h
  have hnone := Pool.allocate_eq_error.mpr ⟨remaining_eq_zero_iff.mpr h, rfl⟩
  rw [serve, hnone]
  rfl

theorem Parted.exists_serve (h : book.Parted) (hlive : book.ReturnsLive request)
    (hnumber : book.HasNumber request) : ∃ next, book.serve request = .ok next := by
  cases request with
  | release id =>
      have hlt := (h.covered id).mpr (Or.inl (hlive id rfl))
      exact ⟨{ pool := _, live := _ },
        serve_release_eq_ok.mpr ⟨Pool.release_eq_ok.mpr ⟨hlt, rfl⟩, rfl⟩⟩
  | allocate =>
      have hsome : 0 < book.pool.remaining := by
        apply Nat.pos_of_ne_zero
        intro hzero
        rcases remaining_eq_zero_iff.mp hzero with ⟨hempty, hcount⟩
        exact hnumber rfl hempty hcount
      rcases Pool.exists_allocate hsome with ⟨id, pool, hallocate⟩
      exact ⟨{ pool, live := _ }, serve_allocate_eq_ok.mpr ⟨id, hallocate, rfl⟩⟩

/-- A pool answers a request if and only if it has a number for it. -/
theorem Parted.answers_iff (h : book.Parted) (hlive : book.ReturnsLive request) :
    book.Answers request ↔ book.HasNumber request := by
  constructor
  · rintro ⟨next, hserve, _⟩ rfl
    by_contra hnone
    rw [serve_allocate_of_not_hasNumber (fun hnumber => hnone (hnumber rfl))] at hserve
    cases hserve
  · intro hnumber
    rcases h.exists_serve hlive hnumber with ⟨next, hserve⟩
    exact ⟨next, hserve, h.answersWell hlive next hserve⟩

/-!
## Rows of requests
-/

theorem along_cons {property : Book -> Request -> Prop} {rest : List Request}
    (hfirst : property book request) (hserve : book.serve request = .ok next)
    (hrest : next.Along property rest) : book.Along property (request :: rest) := by
  refine ⟨hfirst, ?_⟩
  intro other hother
  rw [hserve, Except.ok.injEq] at hother
  exact hother ▸ hrest

theorem Parted.along {left right : Book -> Request -> Prop}
    (hstep : ∀ {book request}, Parted book -> book.ReturnsLive request ->
      left book request -> right book request)
    {requests : List Request} (h : book.Parted) (hlive : book.Along ReturnsLive requests)
    (hleft : book.Along left requests) : book.Along right requests := by
  induction requests generalizing book with
  | nil =>
      trivial
  | cons request rest ih =>
      rcases hlive with ⟨hfirst, hrest⟩
      refine ⟨hstep h hfirst hleft.left, ?_⟩
      intro next hserve
      exact ih (h.answersWell hfirst next hserve).parted (hrest next hserve)
        (hleft.right next hserve)

/--
A pool is taken over with free numbers below its count, and its users give back live
numbers only.  Then live and free numbers part the numbers below the count, and every
answer of the pool is as it should be: live and free numbers part those below the count
afterwards, the count does not fall, and the number handed out is the least free one or
else the next new one, is not live and is not the reserved word.  The pool answers every
request of a row if and only if it has a number whenever one is asked for; where it has
none, it aborts.
-/
theorem served_while_numbers_last {pool : Pool} (hwithin : pool.FreeWithin)
    {requests : List Request} (hlive : (ofPool pool).Along ReturnsLive requests) :
    (ofPool pool).Parted ∧ (ofPool pool).Along AnswersWell requests ∧
      ((ofPool pool).Along Answers requests ↔ (ofPool pool).Along HasNumber requests) ∧
      ∀ book : Book, ¬ book.HasNumber .allocate ->
        book.serve .allocate = .error (.aborted .addOverflow) := by
  have hparted := parted_ofPool hwithin
  refine ⟨hparted, ?_, ⟨?_, ?_⟩, fun _ => serve_allocate_of_not_hasNumber⟩
  · exact hparted.along (fun h hreturns _ => h.answersWell hreturns) hlive hlive
  · exact hparted.along (fun h hreturns => (h.answers_iff hreturns).mp) hlive
  · exact hparted.along (fun h hreturns => (h.answers_iff hreturns).mpr) hlive

/-- A free number is handed out, a new one, one that was given back, and the last new one. -/
theorem served_while_numbers_last_boundary :
    let pool := Pool.ofParts 4294967293 [7]
    let requests : List Request := [.allocate, .allocate, .release 3, .allocate, .allocate]
    pool.FreeWithin ∧
      (ofPool pool).Along ReturnsLive requests ∧ (ofPool pool).Along HasNumber requests ∧
        (ofPool pool).Parted ∧ (ofPool pool).Along Answers requests := by
  intro pool requests
  have hwithin : pool.FreeWithin := by
    intro id hmem
    have hlisted : id ∈ [7] := IdSet.mem_ofList.mp hmem
    rw [List.mem_singleton.mp hlisted]
    decide
  let first : Book := { pool := Pool.ofParts 4294967293 [], live := insert 7 (ofPool pool).live }
  let second : Book :=
    { pool := Pool.ofParts 4294967294 [], live := insert 4294967293 first.live }
  let third : Book := { pool := Pool.ofParts 4294967294 [3], live := second.live \ {3} }
  let fourth : Book := { pool := Pool.ofParts 4294967294 [], live := insert 3 third.live }
  have hfirst : (ofPool pool).serve .allocate = .ok first :=
    serve_allocate_eq_ok.mpr ⟨7, by decide, rfl⟩
  have hsecond : first.serve .allocate = .ok second :=
    serve_allocate_eq_ok.mpr ⟨4294967293, by decide, rfl⟩
  have hthird : second.serve (.release 3) = .ok third :=
    serve_release_eq_ok.mpr ⟨by decide, rfl⟩
  have hfourth : third.serve .allocate = .ok fourth :=
    serve_allocate_eq_ok.mpr ⟨3, by decide, rfl⟩
  have hreturned : second.ReturnsLive (.release 3) := by
    rintro id ⟨⟩
    exact Or.inr (Or.inr ⟨by decide, by decide⟩)
  have hlive : (ofPool pool).Along ReturnsLive requests :=
    along_cons nofun hfirst (along_cons nofun hsecond (along_cons hreturned hthird
      (along_cons nofun hfourth ⟨nofun, fun _ _ => trivial⟩)))
  have hnumber : (ofPool pool).Along HasNumber requests :=
    along_cons (fun _ _ => by decide) hfirst (along_cons (fun _ _ => by decide) hsecond
      (along_cons nofun hthird (along_cons (fun _ _ => by decide) hfourth
        ⟨fun _ _ => by decide, fun _ _ => trivial⟩)))
  rcases served_while_numbers_last hwithin hlive with ⟨hparted, _, hanswers, _⟩
  exact ⟨hwithin, hlive, hnumber, hparted, hanswers.mpr hnumber⟩

/--
A pool in which all numbers but the reserved one are live has no number left to hand
out, and aborts when it is asked for one.
-/
theorem allocate_aborts_at_greatest_count :
    let pool := Pool.ofParts 4294967295 []
    (pool.FreeWithin ∧ (ofPool pool).Along ReturnsLive [.allocate, .allocate] ∧
      pool.allocate = .error (.aborted .addOverflow)) ∧
    ¬ ∀ (pool : Pool) (requests : List Request), pool.FreeWithin ->
      (ofPool pool).Along ReturnsLive requests -> (ofPool pool).Along Answers requests := by
  intro pool
  have hwithin : pool.FreeWithin := fun _ hmem => nomatch hmem
  have hlive : (ofPool pool).Along ReturnsLive [.allocate, .allocate] :=
    ⟨nofun, fun _ _ => ⟨nofun, fun _ _ => trivial⟩⟩
  have habort : pool.allocate = .error (.aborted .addOverflow) := by decide
  refine ⟨⟨hwithin, hlive, habort⟩, ?_⟩
  intro hall
  rcases (hall pool _ hwithin hlive).left with ⟨next, hserve, _⟩
  rcases serve_allocate_eq_ok.mp hserve with ⟨id, hallocate, _⟩
  have hsome : pool.allocate = .ok (id, next.pool) := hallocate
  rw [habort] at hsome
  cases hsome

end Book

end Pool

end PostingIndex
