import Auth8.Persistent.Device
import Mathlib.Data.Nat.Notation

/-! # The class `AuthRequest`

The fields the waiting thread and its resumers share, and the methods on them at the granularity of
single assignments: `pauseThread` is `running = false` followed by the start of the countdown,
`resumeThread` is the three assignments `running`, `authenticated`, `timedout` in that order. -/
namespace Auth8.Request
open Persistent
set_option autoImplicit false

structure AuthRequest where
  running : Bool
  authenticated : Bool
  timedout : Bool
  timeout : Int
  device : Option Device
  deriving DecidableEq, Repr

namespace AuthRequest

def default : AuthRequest where
  running := true
  authenticated := false
  timedout := false
  timeout := 120
  device := none

/-- The constructor `AuthRequest(int timeout, Device device)`: a timeout of zero means 120 seconds, a
negative one is kept. -/
def create (timeout : Int) (device : Device) : AuthRequest where
  running := true
  authenticated := false
  timedout := false
  timeout := if timeout = 0 then 120 else timeout
  device := some device

/-- The first statement of `pauseThread`; the second one starts the countdown thread. -/
def pause (r : AuthRequest) : AuthRequest := { r with running := false }

end AuthRequest

/-- The assignments of `resumeThread`, named by the field they set. -/
inductive Assignment where
  | running
  | authenticated
  | timedout
  deriving DecidableEq, Repr

/-- Where a thread stands inside `resumeThread`: before an assignment, or past the last one. -/
inductive ResumePc where
  | next (f : Assignment)
  | done
  deriving DecidableEq, Repr

/-- Program order of the assignments. -/
def Assignment.after : Assignment → ResumePc
  | .running => .next .authenticated
  | .authenticated => .next .timedout
  | .timedout => .done

def ResumePc.past (f : Assignment) : ResumePc → Bool
  | .next .running => false
  | .next .authenticated => f == .running
  | .next .timedout => f == .running || f == .authenticated
  | .done => true

/-- Executing `g` makes exactly `g` past, and keeps what was past before. -/
theorem past_after (f g : Assignment) : g.after.past f = ((ResumePc.next g).past f || f == g) := by
  cases f <;> cases g <;> rfl

namespace AuthRequest

/-- One assignment of `resumeThread(authenticated, timedout)`. -/
def assign (r : AuthRequest) (authenticated timedout : Bool) : Assignment → AuthRequest
  | .running => { r with running := true }
  | .authenticated => { r with authenticated := authenticated }
  | .timedout => { r with timedout := timedout }

/-- `resumeThread` executed without interference. -/
def resumeThread (r : AuthRequest) (authenticated timedout : Bool) : AuthRequest :=
  ((r.assign authenticated timedout .running).assign authenticated timedout .authenticated).assign
    authenticated timedout .timedout

@[simp] theorem assign_timeout (r : AuthRequest) (a t : Bool) (f : Assignment) :
    (r.assign a t f).timeout = r.timeout := by cases f <;> rfl

theorem assign_running (r : AuthRequest) (a t : Bool) (f : Assignment) :
    (r.assign a t f).running = (r.running || f == .running) := by
  cases f <;> simp [assign]

theorem assign_authenticated (r : AuthRequest) (a t : Bool) (f : Assignment) :
    (r.assign a t f).authenticated = if f = .authenticated then a else r.authenticated := by
  cases f <;> simp [assign]

theorem assign_timedout (r : AuthRequest) (a t : Bool) (f : Assignment) :
    (r.assign a t f).timedout = if f = .timedout then t else r.timedout := by
  cases f <;> simp [assign]

end AuthRequest

structure ResumeCall where
  authenticated : Bool
  timedout : Bool
  pc : ResumePc
  deriving DecidableEq, Repr

def ResumeCall.args (r : ResumeCall) : Bool × Bool := (r.authenticated, r.timedout)

def ResumeCall.enter (authenticated timedout : Bool) : ResumeCall :=
  ⟨authenticated, timedout, .next .running⟩

/-- The countdown thread: not yet started, at the head of its loop with `i` sleeps behind it, or in
its `resumeThread(false, true)`. As `i` never passes the `int` `timeout`, `i++` does not wrap. -/
inductive CountdownPc where
  | notStarted
  | loop (i : ℕ)
  | resume (pc : ResumePc)
  deriving DecidableEq, Repr

/-- The sleeps left before the loop of `countdown` ends. -/
def CountdownPc.sleepsLeft (timeout : Int) : CountdownPc → ℕ
  | .notStarted => timeout.toNat
  | .loop i => (timeout - i).toNat
  | .resume _ => 0

def CountdownPc.past (f : Assignment) : CountdownPc → Bool
  | .resume pc => pc.past f
  | _ => false

end Auth8.Request
