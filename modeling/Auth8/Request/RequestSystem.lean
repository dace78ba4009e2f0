import Auth8.Foundations.EventRuns
import Auth8.Request.AuthRequest
import Mathlib.Logic.Function.Basic

/-! # One authentication request as a transition system

The parties are the request thread that waits in `authenticate`, the countdown thread of
`AuthRequest.countdown` and any number of `wake` calls that have found the request in the map. Every
field assignment, every field read the request thread makes after its loop, and every other
statement of the parties that concerns the request is one event. -/
namespace Auth8.Request
open EventRuns Persistent
set_option autoImplicit false

/-- Where the request thread stands with respect to its `AuthRequest`. -/
inductive Waiter where
  | idle
  | constructed
  | paused
  | counting
  | published
  | polling
  | left
  | read (authenticated : Bool)
  | answered (authenticated timedout : Bool)
  | failed
  deriving DecidableEq, Repr

def Waiter.isPublished : Waiter → Bool
  | .idle | .constructed | .paused | .counting => false
  | _ => true

def Waiter.isStarted : Waiter → Bool
  | .idle | .constructed | .paused => false
  | _ => true

def Waiter.isUnread : Waiter → Bool
  | .left | .read _ | .answered _ _ => false
  | _ => true

theorem Waiter.isStarted_of_isPublished {w : Waiter} (h : w.isPublished = true) :
    w.isStarted = true := by
  cases w <;> first | rfl | cases h

/-- The threads that call `resumeThread`. -/
inductive Caller where
  | wake (k : ℕ)
  | countdown
  deriving DecidableEq, Repr

inductive Event where
  /-- `new AuthRequest(timeout, device)` -/
  | construct (timeout : Int) (device : Device)
  /-- `running = false` in `pauseThread` -/
  | pause
  /-- `new Thread(countdownThread).start()` -/
  | startCountdown
  /-- `ls.getRequest().put(uniqueRequestId, authRequest)` -/
  | put
  /-- `sendMessage` returns -/
  | sent
  /-- `sendMessage` throws -/
  | fail
  /-- one test of `!authRequest.isRunning()` -/
  | poll
  | readAuthenticated
  | readTimedout
  /-- a `wake` call that has obtained the request enters `resumeThread(auth, false)` -/
  | wake (k : ℕ) (auth : Bool)
  /-- one `Thread.sleep(1000)` of the countdown -/
  | sleep
  /-- the countdown leaves its loop and enters `resumeThread(false, true)` -/
  | expire
  | assign (c : Caller) (f : Assignment)
  deriving DecidableEq, Repr

structure State where
  request : AuthRequest
  waiter : Waiter
  countdown : CountdownPc
  wakes : ℕ → Option ResumeCall

namespace State

def init : State where
  request := .default
  waiter := .idle
  countdown := .notStarted
  wakes := fun _ => none

/-- The `resumeThread` call a thread is in, or has returned from. -/
def call (s : State) : Caller → Option ResumeCall
  | .wake k => s.wakes k
  | .countdown =>
    match s.countdown with
    | .resume pc => some ⟨false, true, pc⟩
    | _ => none

/-- Moving a thread within its `resumeThread` call. -/
def advance (s : State) (r : ResumeCall) : Caller → ResumePc → State
  | .wake k, pc => { s with wakes := Function.update s.wakes k (some { r with pc := pc }) }
  | .countdown, pc => { s with countdown := .resume pc }

@[simp] theorem advance_request (s : State) (r : ResumeCall) (c : Caller) (pc : ResumePc) :
    (s.advance r c pc).request = s.request := by cases c <;> rfl

@[simp] theorem advance_waiter (s : State) (r : ResumeCall) (c : Caller) (pc : ResumePc) :
    (s.advance r c pc).waiter = s.waiter := by cases c <;> rfl

theorem advance_call_self (s : State) (r : ResumeCall) (c : Caller) (pc : ResumePc)
    (h : s.call c = some r) : (s.advance r c pc).call c = some { r with pc := pc } := by
  cases c with
  | wake k => simp [advance, call]
  | countdown =>
    simp only [call] at h
    split at h
    · cases h
      rfl
    · cases h

theorem advance_call_ne (s : State) (r : ResumeCall) {c d : Caller} (pc : ResumePc) (h : d ≠ c) :
    (s.advance r c pc).call d = s.call d := by
  cases c with
  | wake k =>
    cases d with
    | wake j => simp [advance, call, Function.update_of_ne (fun e => h (congrArg Caller.wake e))]
    | countdown => rfl
  | countdown =>
    cases d with
    | wake j => rfl
    | countdown => exact absurd rfl h

theorem advance_args (s : State) {r : ResumeCall} {c : Caller} (pc : ResumePc)
    (h : s.call c = some r) (d : Caller) :
    ((s.advance r c pc).call d).map ResumeCall.args = (s.call d).map ResumeCall.args := by
  by_cases hd : d = c
  · subst hd
    rw [advance_call_self s r d pc h, h]
    rfl
  · rw [advance_call_ne s r pc hd]

theorem call_countdown {s : State} {r : ResumeCall} (h : s.call .countdown = some r) :
    ∃ pc, s.countdown = .resume pc ∧ r = ⟨false, true, pc⟩ := by
  cases hc : s.countdown with
  | resume pc => exact ⟨pc, rfl, by simpa [call, hc, eq_comm] using h⟩
  | _ => simp [call, hc] at h

end State

/-- One event of the system. -/
def step (s : State) : Event → Option State
  | .construct timeout device =>
    whenever (s.waiter = .idle) { s with request := .create timeout device, waiter := .constructed }
  | .pause =>
    whenever (s.waiter = .constructed) { s with request := s.request.pause, waiter := .paused }
  | .startCountdown =>
    whenever (s.waiter = .paused) { s with waiter := .counting, countdown := .loop 0 }
  | .put => whenever (s.waiter = .counting) { s with waiter := .published }
  | .sent => whenever (s.waiter = .published) { s with waiter := .polling }
  | .fail => whenever (s.waiter = .published) { s with waiter := .failed }
  | .poll =>
    whenever (s.waiter = .polling) { s with waiter := if s.request.running then .left else .polling }
  | .readAuthenticated =>
    whenever (s.waiter = .left) { s with waiter := .read s.request.authenticated }
  | .readTimedout =>
    match s.waiter with
    | .read authenticated => some { s with waiter := .answered authenticated s.request.timedout }
    | _ => none
  | .wake k auth =>
    whenever (s.waiter.isPublished ∧ s.wakes k = none)
      { s with wakes := Function.update s.wakes k (some (.enter auth false)) }
  | .sleep =>
    match s.countdown with
    | .loop i => whenever ((i : Int) < s.request.timeout) { s with countdown := .loop (i + 1) }
    | _ => none
  | .expire =>
    match s.countdown with
    | .loop i =>
      whenever (¬ (i : Int) < s.request.timeout) { s with countdown := .resume (.next .running) }
    | _ => none
  | .assign c f =>
    match s.call c with
    | some r =>
      whenever (r.pc = .next f)
        { s.advance r c f.after with request := s.request.assign r.authenticated r.timedout f }
    | none => none

/-! ## What each event can do -/

variable {s s' : State}

theorem step_readTimedout :
    step s .readTimedout = some s' ↔
      ∃ a, s.waiter = .read a ∧ { s with waiter := .answered a s.request.timedout } = s' := by
  cases h : s.waiter <;> simp [step, h]

theorem step_sleep :
    step s .sleep = some s' ↔
      ∃ i : ℕ, s.countdown = .loop i ∧ (i : Int) < s.request.timeout ∧
        { s with countdown := .loop (i + 1) } = s' := by
  cases h : s.countdown <;> simp [step, h]

theorem step_expire :
    step s .expire = some s' ↔
      ∃ i : ℕ, s.countdown = .loop i ∧ ¬ (i : Int) < s.request.timeout ∧
        { s with countdown := .resume (.next .running) } = s' := by
  cases h : s.countdown <;> simp [step, h]

theorem step_assign {c : Caller} {f : Assignment} :
    step s (.assign c f) = some s' ↔
      ∃ r, s.call c = some r ∧ r.pc = .next f ∧
        { s.advance r c f.after with
          request := s.request.assign r.authenticated r.timedout f } = s' := by
  cases h : s.call c <;> simp [step, h]

theorem step_wake {k : ℕ} {auth : Bool} :
    step s (.wake k auth) = some s' ↔
      (s.waiter.isPublished = true ∧ s.wakes k = none) ∧
        { s with wakes := Function.update s.wakes k (some (.enter auth false)) } = s' := by
  simp [step]

theorem step_poll :
    step s .poll = some s' ↔
      s.waiter = .polling ∧
        { s with waiter := if s.request.running then .left else .polling } = s' := by
  simp [step]

/-- The events that are no part of a `resumeThread` call and no read of its result. -/
def Event.isQuiet : Event → Bool
  | .wake _ _ | .expire | .assign _ _ | .readAuthenticated | .readTimedout => false
  | _ => true

/-- What a quiet event can do. The result fields are set only by the constructor, the request thread
leaves its loop only on a running request, and `running` is only cleared before the countdown starts. -/
structure Quiet (s s' : State) : Prop where
  wakes : s'.wakes = s.wakes
  resume : ∀ pc, s'.countdown = .resume pc ↔ s.countdown = .resume pc
  unstarted : s'.waiter.isStarted = false → s.waiter.isStarted = false ∧ s'.countdown = s.countdown
  started : s'.waiter.isStarted = true → s'.countdown = .notStarted →
    s.waiter.isStarted = true ∧ s.countdown = .notStarted
  authenticated : s'.request.authenticated = s.request.authenticated ∨
    s.waiter.isStarted = false ∧ s'.request.authenticated = false
  timedout : s'.request.timedout = s.request.timedout ∨
    s.waiter.isStarted = false ∧ s'.request.timedout = false
  paused : s'.waiter = .paused → s'.request.running = false ∨
    s.waiter = .paused ∧ s'.request.running = s.request.running
  running : s'.waiter.isStarted = true → s'.request.running = s.request.running ∧
    (s.waiter.isStarted = true ∨ s.waiter = .paused)
  waiter : s'.waiter = s.waiter ∨ s.waiter.isUnread = true ∧ s'.waiter.isUnread = true ∨
    s.waiter = .polling ∧ s'.waiter = .left ∧ s.request.running = true

theorem Quiet.call_eq (q : Quiet s s') (c : Caller) : s'.call c = s.call c := by
  cases c with
  | wake k => simp [State.call, q.wakes]
  | countdown =>
    have := q.resume
    cases hs : s.countdown <;> cases hs' : s'.countdown <;> simp_all [State.call]

theorem quiet_of_step {e : Event} (he : step s e = some s') (hq : e.isQuiet = true)
    (hc : s.waiter.isStarted = false → s.countdown = .notStarted) : Quiet s s' := by
  cases e with
  | construct timeout device =>
    obtain ⟨hw, rfl⟩ := whenever_eq_some.mp he
    constructor <;> simp [hw, AuthRequest.create, Waiter.isStarted, Waiter.isUnread]
  | pause =>
    obtain ⟨hw, rfl⟩ := whenever_eq_some.mp he
    constructor <;> simp [hw, AuthRequest.pause, Waiter.isStarted, Waiter.isUnread]
  | startCountdown =>
    obtain ⟨hw, rfl⟩ := whenever_eq_some.mp he
    constructor <;> simp [hw, hc, Waiter.isStarted, Waiter.isUnread]
  | put | sent | fail =>
    obtain ⟨hw, rfl⟩ := whenever_eq_some.mp he
    constructor <;> simp [hw, Waiter.isStarted, Waiter.isUnread]
  | poll =>
    obtain ⟨hw, rfl⟩ := step_poll.mp he
    cases hr : s.request.running <;> constructor <;> simp [hw, hr, Waiter.isStarted, Waiter.isUnread]
  | sleep =>
    obtain ⟨i, hi, _, rfl⟩ := step_sleep.mp he
    have hs : s.waiter.isStarted = true := by
      by_contra hn
      rw [hc (by simpa using hn)] at hi
      cases hi
    constructor <;> simp +contextual [hi, hs]
  | _ => cases hq

theorem call_eq_none (h : s.waiter.isStarted = false → (∀ k, s.wakes k = none) ∧
    s.countdown = .notStarted) (hs : s.waiter.isStarted = false) (c : Caller) : s.call c = none := by
  obtain ⟨hw, hc⟩ := h hs
  cases c with
  | wake k => exact hw k
  | countdown => simp [State.call, hc]

/-! ## The arguments `resumeThread` is called with -/

/-- The pair a `resumeThread` call carries, at the event that makes the call. -/
def resumeArgs : Event → Option (Bool × Bool)
  | .wake _ auth => some (auth, false)
  | .expire => some (false, true)
  | _ => none

theorem resumeArgs_of_quiet {e : Event} (h : e.isQuiet = true) : resumeArgs e = none := by
  cases e <;> simp_all [Event.isQuiet, resumeArgs]

/-- The pairs of the `resumeThread` calls of a schedule, in the order of the calls. -/
def resumes (es : List Event) : List (Bool × Bool) := es.filterMap resumeArgs

theorem resumes_concat (es : List Event) (e : Event) :
    resumes (es ++ [e]) = resumes es ++ (resumeArgs e).toList := by
  cases h : resumeArgs e <;> simp [resumes, List.filterMap_append, h]

/-- The only calls are `resumeThread(auth, false)` by a `wake` and `resumeThread(false, true)` by the
countdown. -/
theorem mem_resumes {es : List Event} {a t : Bool} :
    (a, t) ∈ resumes es ↔
      t = false ∧ (∃ k, Event.wake k a ∈ es) ∨ a = false ∧ t = true ∧ Event.expire ∈ es := by
  simp only [resumes, List.mem_filterMap]
  constructor
  · rintro ⟨e, he, h⟩
    cases e with
    | wake k auth => cases h; exact .inl ⟨rfl, k, he⟩
    | expire => cases h; exact .inr ⟨rfl, rfl, he⟩
    | _ => cases h
  · rintro (⟨rfl, k, hk⟩ | ⟨rfl, rfl, he⟩)
    · exact ⟨_, hk, rfl⟩
    · exact ⟨_, he, rfl⟩

def pushed : List Event :=
  [.construct (-1) ⟨"user@example.com", some "phone", "gcm"⟩, .pause, .startCountdown, .put, .sent]

end Auth8.Request
