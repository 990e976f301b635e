import SkynetCpp.Proofs.Access

/-!
# How far spawn and kill are

What the flags of a queue say about the threads on it, whatever they do. `Stages` is about `spawn`:
one thread is in it, at one point, until it returns, and `initialized` and `init_failed` are set on
the way and never both. `Released` is about `releasing` and the destruction of the actor: what must
have happened before a thread drains the queue.
-/

namespace SkynetCpp

open Op

/-- How far `spawn` is. -/
structure Stages (q : ActorQueue) (n : Counts) : Prop where
  init : n spawnInit + q.initReturned.toNat = 1
  spawn : n spawnInit + n spawnDecide + n spawnSucceed + n spawnFail + n atCount
    + q.spawnReturned.toNat = 1
  before : q.initialized.toNat + n spawnInit + n spawnDecide + n spawnSucceed + n spawnFail ≤ 1
  after : n atCount ≤ q.initialized.toNat
  returned : q.spawnReturned = true → q.initialized = true ∨ q.initFailed = true
  succeeds : q.initialized = true ∨ 0 < n spawnSucceed → q.initFailed = false
  fails : 0 < n spawnFail → q.initFailed = true
  noIdle : n idleAfterSpawn = 0

/-- What `releasing`, `destroy_requested_` and `destroyed_` mean. -/
structure Released (q : ActorQueue) (n : Counts) : Prop where
  kill : n killFlags + n killMid + n (site .kill) ≤ q.killed.toNat
  points : 0 < n released → q.releasing = true
  draining : 0 < n drains → q.releasing = true
  requested : q.destroyRequested = true → q.releasing = true
  destroyed : q.destroyed = true → q.releasing = true
  ownerless : q.owner = false → q.destroyed = true
  gone : 0 < n destroying → q.destroyed = true
  cause : q.releasing = true → q.killed = true ∨ q.initFailed = true
  direct : q.direct = true → q.releasing = true ∧ q.killed = true
  fromKill : 0 < n (site .kill) → q.direct = true
  runs : q.destroyRuns = q.destroyed.toNat

theorem countP_singleton (p : Op → Bool) (o : Op) : [o].countP p = (p o).toNat := by
  cases h : p o <;> simp [h]

variable {q q' : ActorQueue} {n : Counts} {t tok : ℕ} {o : Op} {next : List Op}

theorem Stages.fresh (h : Handle) : Stages { handle := h } (.of [.spawnRegister]) := by
  constructor <;>
    simp [spawnInit, spawnDecide, spawnSucceed, spawnFail, atCount, site, idleAfterSpawn]

variable (q') in
/-- `spawn` is as far as before. -/
theorem Stages.frame {ops : List Op} (h : Stages q (n.add ops)) (ops' : List Op)
    (hq : (q'.initReturned, q'.initialized, q'.initFailed, q'.spawnReturned)
      = (q.initReturned, q.initialized, q.initFailed, q.spawnReturned))
    (hops : (ops'.countP spawnInit, ops'.countP spawnDecide, ops'.countP spawnSucceed,
        ops'.countP spawnFail, ops'.countP atCount, ops'.countP idleAfterSpawn)
      = (ops.countP spawnInit, ops.countP spawnDecide, ops.countP spawnSucceed,
        ops.countP spawnFail, ops.countP atCount, ops.countP idleAfterSpawn)) :
    Stages q' (n.add ops') := by
  obtain ⟨h1, h2, h3, h4, h5, h6, h7, h8⟩ := h
  simp only [Prod.mk.injEq] at hq hops
  obtain ⟨hret, hini, hfail, hspawn⟩ := hq
  obtain ⟨hp1, hp2, hp3, hp4, hp5, hp6⟩ := hops
  constructor <;>
    simp only [Counts.add_apply, hret, hini, hfail, hspawn, hp1, hp2, hp3, hp4, hp5, hp6] <;>
    assumption

theorem Stages.access (h : Stages q (n.add [o])) (ha : o.Access q q' next tok) :
    Stages q' (n.add next) := by
  have hframe := h.frame q' next
  obtain ⟨h1, h2, h3, h4, h5, h6, h7, h8⟩ := h
  cases ha <;> (try cases ‹SchedNext›) <;> (try cases ‹DrainSite›) <;> (try exact hframe rfl rfl) <;>
    clear hframe <;>
    simp only [Counts.add_apply, countP_singleton, spawnInit, spawnDecide, spawnSucceed,
      spawnFail, atCount, site, idleAfterSpawn, Bool.toNat_true, Bool.toNat_false, Nat.add_zero,
      reduceCtorEq, decide_true, decide_false] at h1 h2 h3 h4 h5 h6 h7 h8 <;>
    constructor <;>
    (try simp only [Counts.add_apply, countP_singleton, List.countP_nil,
      DrainSite.afterClear, spawnInit, spawnDecide,
      spawnSucceed, spawnFail, atCount, site, idleAfterSpawn, Bool.toNat_true, Bool.toNat_false,
      Nat.add_zero, reduceCtorEq, decide_true, decide_false, Bool.or_true, Bool.or_false]) <;>
    first | assumption | grind -ring -linarith

/-- A thread at a point outside `spawn` changes nothing. -/
theorem Stages.enter (h : Stages q n) (o : Op) (ho : o.spawnInit = false)
    (ho' : o.spawnDecide = false) (hs : o.spawnSucceed = false) (hf : o.spawnFail = false)
    (hc : o.atCount = false) (hi : o.idleAfterSpawn = false) : Stages q (n.add [o]) := by
  obtain ⟨h1, h2, h3, h4, h5, h6, h7, h8⟩ := h
  constructor <;> simpa [ho, ho', hs, hf, hc, hi]

theorem Stages.not_initialized (h : Stages q n) (hf : 0 < n spawnFail) :
    q.initialized = false := by
  have := h.before
  cases hi : q.initialized
  · rfl
  · rw [hi, Bool.toNat_true] at this
    omega

theorem Released.fresh (h : Handle) : Released { handle := h } (.of [.spawnRegister]) := by
  constructor <;> simp [killFlags, killMid, released, drains, destroying, site]

variable (q') in
/-- The destruction is as far as before. -/
theorem Released.frame {ops : List Op} (h : Released q (n.add ops)) (ops' : List Op)
    (hq : (q'.killed, q'.releasing, q'.destroyRequested, q'.destroyed, q'.owner, q'.initFailed,
        q'.direct, q'.destroyRuns)
      = (q.killed, q.releasing, q.destroyRequested, q.destroyed, q.owner, q.initFailed, q.direct,
        q.destroyRuns))
    (hops : (ops'.countP killFlags, ops'.countP killMid, ops'.countP released, ops'.countP drains,
        ops'.countP destroying, ops'.countP (site .kill))
      = (ops.countP killFlags, ops.countP killMid, ops.countP released, ops.countP drains,
        ops.countP destroying, ops.countP (site .kill))) : Released q' (n.add ops') := by
  obtain ⟨h1, h2, h3, h4, h5, h6, h7, h8, h9, h10, h11⟩ := h
  simp only [Prod.mk.injEq] at hq hops
  obtain ⟨hkilled, hrel, hreq, hdes, howner, hfail, hdirect, hruns⟩ := hq
  obtain ⟨hp1, hp2, hp3, hp4, hp5, hp6⟩ := hops
  constructor <;>
    simp only [Counts.add_apply, hkilled, hrel, hreq, hdes, howner, hfail, hdirect, hruns, hp1, hp2,
      hp3, hp4, hp5, hp6] <;>
    assumption

theorem Released.access (h : Released q (n.add [o])) (hs : Stages q (n.add [o]))
    (ha : o.Access q q' next tok) : Released q' (n.add next) := by
  have hframe := h.frame q' next
  obtain ⟨h1, h2, h3, h4, h5, h6, h7, h8, h9, h10, h11⟩ := h
  -- `spawn` sets `releasing` only where `on_init` failed
  have hf := hs.fails
  clear hs
  cases ha <;> (try cases ‹SchedNext›) <;> (try cases ‹DrainSite›) <;> (try exact hframe rfl rfl) <;>
    clear hframe <;>
    simp only [Counts.add_apply, countP_singleton, spawnFail, killFlags, killMid, released,
      drains, destroying, site, Bool.toNat_true, Bool.toNat_false, Nat.add_zero, reduceCtorEq,
      decide_true, decide_false] at hf h1 h2 h3 h4 h5 h6 h7 h8 h9 h10 h11 <;>
    constructor <;>
    (try simp only [Counts.add_apply, countP_singleton, List.countP_nil,
      DrainSite.afterDrain, DrainSite.afterStore, DrainSite.afterClear, killFlags, killMid,
      released, drains, destroying, site, Bool.toNat_true, Bool.toNat_false, Nat.add_zero,
      reduceCtorEq, decide_true, decide_false]) <;>
    first | assumption | grind -ring -linarith

theorem Released.enter (h : Released q n) (o : Op) (ho : o.released = false)
    (hk : o.killFlags = false) (hm : o.killMid = false) (hs : o.site .kill = false)
    (hd : o.drains = false) (hg : o.destroying = false) : Released q (n.add [o]) := by
  obtain ⟨h1, h2, h3, h4, h5, h6, h7, h8, h9, h10, h11⟩ := h
  constructor <;> simpa [ho, hk, hm, hs, hd, hg]

theorem Released.killed (h : Released q n) (hk : q.killed = false) :
    Released { q with killed := true } (n.add [.killAccepting]) := by
  obtain ⟨h1, h2, h3, h4, h5, h6, h7, h8, h9, h10, h11⟩ := h
  constructor <;> simp_all [killFlags, killMid, released, drains, destroying, site]

end SkynetCpp
