import Mathlib.Algebra.Group.Nat.Defs
import SkynetCpp.Lib.Runs

/-!
# WorkerMonitor

One worker, which calls `begin` and `end` around each dispatch, and the monitor thread, which calls
`check` over and over. Each atomic operation is a step, and so are the calls and returns that the
order of events is about. Besides the atomics a state counts how far the worker's dispatches are:
the `k`-th dispatch has entered `begin` when `begun` is at least `k`, and so on.
-/

namespace SkynetCpp

open Lib

namespace WorkerMonitor

/-- What the worker does next. -/
inductive Worker
  | outside
  | storeSource (src dst : ℕ)
  | storeDestination (dst : ℕ)
  | addVersion
  | storeBusy
  | returnBegin
  | dispatching
  | storeIdle
  deriving DecidableEq

/-- What the monitor does next: in `check`, and then in `monitor_loop` where it reports. -/
inductive Monitor
  | outside
  | loadBusy
  | loadVersion (busy : Bool)
  | loadCheckVersion (v : ℕ)
  | storeVersion (v : ℕ)
  | returnCheck (stuck : Bool)
  | loadSource
  | loadDestination (src : ℕ)
  deriving DecidableEq

/-- A check that has returned: how many `begin`s had returned when it started, and how many had
been entered when it returned. -/
structure Check where
  openedAtStart : ℕ
  begunAtReturn : ℕ
  deriving DecidableEq

structure State where
  version : ℕ := 0
  checkVersion : ℕ := 0
  source : ℕ := 0
  destination : ℕ := 0
  busy : Bool := false
  worker : Worker := .outside
  monitor : Monitor := .outside
  /-- the dispatches that are reported, with source and destination -/
  reports : List (ℕ × ℕ) := []
  -- how many dispatches have entered `begin`, added to `version` there, and returned from it
  begun : ℕ := 0
  added : ℕ := 0
  opened : ℕ := 0
  -- how many have called `end`, and taken `busy` back there
  endCalled : ℕ := 0
  ended : ℕ := 0
  /-- `added` when a check last loaded `version`, and when the check before did -/
  lastRead : ℕ := 0
  prevRead : ℕ := 0
  /-- of the check that is going on: `opened` when it started, `ended` when it loaded `busy` -/
  openedAtStart : ℕ := 0
  endedAtBusy : ℕ := 0
  previous : Option Check := none
  deriving DecidableEq

inductive Label
  /-- the calls -/
  | begin (src dst : ℕ)
  | end
  | check
  /-- the next step of what is called -/
  | worker
  | monitor
  deriving DecidableEq

namespace State

/-- The worker's next step inside `begin` or `end`. -/
def workerStep (s : State) : Option State :=
  match s.worker with
  | .outside | .dispatching => none
  | .storeSource src dst => some { s with source := src, worker := .storeDestination dst }
  | .storeDestination dst => some { s with destination := dst, worker := .addVersion }
  | .addVersion =>
    some { s with
      version := (s.version + 1) % 2 ^ 32, added := s.added + 1, worker := .storeBusy }
  | .storeBusy => some { s with busy := true, worker := .returnBegin }
  | .returnBegin => some { s with opened := s.opened + 1, worker := .dispatching }
  | .storeIdle => some { s with busy := false, ended := s.ended + 1, worker := .outside }

/-- The monitor's next step inside `check`, or with its result in `monitor_loop`. -/
def monitorStep (s : State) : Option State :=
  match s.monitor with
  | .outside => none
  | .loadBusy => some { s with endedAtBusy := s.ended, monitor := .loadVersion s.busy }
  | .loadVersion busy =>
    some { s with
      lastRead := s.added
      prevRead := s.lastRead
      monitor := if busy then .loadCheckVersion s.version else .storeVersion s.version }
  | .loadCheckVersion v =>
    some { s with monitor := if v = s.checkVersion then .returnCheck true else .storeVersion v }
  | .storeVersion v => some { s with checkVersion := v, monitor := .returnCheck false }
  | .returnCheck stuck =>
    some { s with
      previous := some { openedAtStart := s.openedAtStart, begunAtReturn := s.begun }
      monitor := if stuck then .loadSource else .outside }
  | .loadSource => some { s with monitor := .loadDestination s.source }
  | .loadDestination src =>
    some { s with
      reports := if s.destination ≠ 0 then s.reports ++ [(src, s.destination)] else s.reports
      monitor := .outside }

def step (s : State) : Label → Option State
  | .begin src dst =>
    if s.worker = .outside then
      some { s with begun := s.begun + 1, worker := .storeSource src dst }
    else none
  | .end =>
    if s.worker = .dispatching then
      some { s with endCalled := s.endCalled + 1, worker := .storeIdle }
    else none
  | .check =>
    if s.monitor = .outside then
      some { s with openedAtStart := s.opened, monitor := .loadBusy }
    else none
  | .worker => s.workerStep
  | .monitor => s.monitorStep

/-- Between the loads of `version` by two checks, one after the other, fewer than `2 ^ 32`
dispatches add to it. -/
def Fewer (s : State) (l : Label) : Prop :=
  l = .monitor → ∀ busy, s.monitor = .loadVersion busy → s.added - s.lastRead < 2 ^ 32

instance (s : State) (l : Label) : Decidable (s.Fewer l) :=
  decidable_of_iff (l = .monitor → ∀ busy ∈ [true, false], s.monitor = .loadVersion busy →
    s.added - s.lastRead < 2 ^ 32) (by simp [Fewer])

/-- A check that is about to return `stuck` tells exactly the long dispatches. Where there is no
check before it, nothing is stuck. -/
structure Detects (s : State) (stuck : Bool) : Prop where
  began : stuck = true → ∀ p ∈ s.previous, ∃ k, k ≤ p.begunAtReturn ∧ s.endedAtBusy < k
  stalled : ∀ p ∈ s.previous, ∀ k, k ≤ p.openedAtStart → s.endCalled < k → stuck = true
  first : s.previous = none → stuck = false

end State

end WorkerMonitor

end SkynetCpp
