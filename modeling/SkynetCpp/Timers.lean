import SkynetCpp.Lib.Endian
import SkynetCpp.Lib.Runs

/-!
# Timers

`core.timeout`, as `skynet.timeout` and `skynet.sleep` call it, and `ActorSystem::timeout`. The
delay is a Lua integer of centiseconds, the code has it in milliseconds, and the timer in
nanoseconds; each conversion wraps in 64 bits. The timer is `asio::steady_timer`, on a clock of
nanoseconds in 64 bits: what it waits for is at `expires_after`, and it is exact.
-/

namespace SkynetCpp

open Lib

namespace Timers

/-- The latest point in time, `time_point::max()`. -/
def maxTime : ℤ := 2 ^ 63 - 1

def minTime : ℤ := -2 ^ 63

/-- What `ltimeout` makes of `ti`. -/
def milliseconds (ti : Int64) : ℤ := toSigned 64 (ti.toInt * 10)

/-- The conversion of milliseconds to the `duration` of `steady_timer`. -/
def nanoseconds (ms : ℤ) : ℤ := toSigned 64 (ms * 1000000)

/-- `chrono_time_traits::add` -/
def add (t d : ℤ) : ℤ :=
  if 0 ≤ t then
    if maxTime - t < d then maxTime else toSigned 64 (t + d)
  else if -(t - minTime) > d then minTime else toSigned 64 (t + d)

/-- `expires_after` -/
def expiresAfter (now delay : ℤ) : ℤ := add now (nanoseconds delay)

/-- `ActorSystem::timeout`: when the timer expires, or none if the response is sent at once. -/
def timeout (now delay : ℤ) : Option ℤ :=
  if delay ≤ 0 then none else some (expiresAfter now delay)

/-- A call of `core.timeout`. -/
structure Request where
  dest : ℕ
  session : ℤ
  ti : Int64
  time : ℤ
  deriving DecidableEq

/-- When the response is due. -/
def Request.due (r : Request) : ℤ := (timeout r.time (milliseconds r.ti)).getD r.time

structure State where
  clock : ℤ
  nextSession : ℤ := 1
  /-- the timers that are waiting, with what they were made for -/
  timers : List (Request × ℤ) := []
  /-- the `PTYPE_RESPONSE`s, with when they were sent -/
  sent : List (Request × ℤ) := []
  requests : List Request := []
  deriving DecidableEq

inductive Label
  | tick (d : ℕ)
  /-- `core.timeout(ti, session)`, the second argument nil or there -/
  | timeout (dest : ℕ) (ti : Int64) (session : Option Int64)
  /-- `skynet.timeout(ti, func)` or `skynet.sleep(ti)` -/
  | skynetTimeout (dest : ℕ) (ti : Int64)
  /-- a timer that has expired -/
  | fire (i : ℕ)
  /-- a timer whose wait ends with an error, as the system stops -/
  | abort (i : ℕ)
  deriving DecidableEq

namespace State

def init (now : Int64) : State := { clock := now.toInt }

/-- `alloc_session`: `fetch_add` of an `int` that wraps. -/
def allocSession (s : State) : ℤ × State :=
  (s.nextSession, { s with nextSession := toSigned 32 (s.nextSession + 1) })

/-- `ActorSystem::timeout` for what `ltimeout` got. -/
def request (s : State) (dest : ℕ) (session : ℤ) (ti : Int64) : State :=
  let r : Request := { dest, session, ti, time := s.clock }
  let s := { s with requests := s.requests ++ [r] }
  match timeout s.clock (milliseconds ti) with
  | none => { s with sent := s.sent ++ [(r, s.clock)] }
  | some expiry => { s with timers := s.timers ++ [(r, expiry)] }

/-- `ltimeout` -/
def ltimeout (s : State) (dest : ℕ) (ti : Int64) (session : Option Int64) : State :=
  match session with
  | some session => s.request dest (toSigned 32 session.toInt) ti
  | none => s.allocSession.2.request dest s.allocSession.1 ti

def step (s : State) : Label → Option State
  | .tick d => if s.clock + d ≤ maxTime then some { s with clock := s.clock + d } else none
  | .timeout dest ti session => some (s.ltimeout dest ti session)
  | .skynetTimeout dest ti =>
    some (s.allocSession.2.ltimeout dest ti (some (Int64.ofInt s.allocSession.1)))
  | .fire i =>
    match s.timers[i]? with
    | some (r, expiry) =>
      if expiry ≤ s.clock then
        some { s with timers := s.timers.eraseIdx i, sent := s.sent ++ [(r, s.clock)] }
      else none
    | none => none
  | .abort i => if i < s.timers.length then some { s with timers := s.timers.eraseIdx i } else none

end State

/-- So many nanoseconds are `ti` centiseconds. -/
def span (ti : Int64) : ℤ := ti.toInt * 10000000

/-- A call at the time `now` does what it is for: nothing overflows, the response is sent at once
just for `ti ≤ 0`, and a timer expires when `ti` centiseconds have passed. -/
structure Right (now : ℤ) (ti : Int64) : Prop where
  converts : milliseconds ti = ti.toInt * 10
  expires : 0 < ti.toInt → nanoseconds (milliseconds ti) = span ti
    ∧ expiresAfter now (milliseconds ti) = now + span ti
  immediate : timeout now (milliseconds ti) = none ↔ ti.toInt ≤ 0

/-- The milliseconds of `ti` fit 64 bits, and for a delay so do its nanoseconds and the time then.
-/
def Fits (now : ℤ) (ti : Int64) : Prop :=
  minTime ≤ ti.toInt * 10 ∧ (0 < ti.toInt → span ti ≤ maxTime ∧ now + span ti ≤ maxTime)

instance (now : ℤ) (ti : Int64) : Decidable (Fits now ti) := by
  unfold Fits
  infer_instance

namespace State

/-- `Fits` of what is asked for. -/
def StepFits (s : State) : Label → Prop
  | .timeout _ ti _ | .skynetTimeout _ ti => Fits s.clock ti
  | _ => True

instance (s : State) (l : Label) : Decidable (s.StepFits l) := by
  cases l <;> unfold StepFits <;> infer_instance

/-- No response is early, those for `ti ≤ 0` are sent at once and the others are not, and of two
requests at one moment the one for less is due no later. -/
structure OnTime (s : State) : Prop where
  right : ∀ r ∈ s.requests, Right r.time r.ti
  sent : ∀ p ∈ s.sent, p.1 ∈ s.requests
    ∧ if p.1.ti.toInt ≤ 0 then p.2 = p.1.time else p.1.time + span p.1.ti ≤ p.2
  immediate : ∀ r ∈ s.requests, r.ti.toInt ≤ 0 → (r, r.time) ∈ s.sent
  monotone : ∀ r ∈ s.requests, ∀ r' ∈ s.requests, r.time = r'.time → r.ti ≤ r'.ti → r.due ≤ r'.due

end State

end Timers

end SkynetCpp
