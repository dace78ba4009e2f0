import Auth8.Jaxrs.Response
import Auth8.Request.RequestSystem
import Auth8.Server.LazySingleton
import Auth8.Server.UniqueRequestId

/-! # The running server

Any number of `authenticate` and `wake` calls and the countdown threads the former start, sharing the
`LazySingleton` and the heap of `AuthRequest`s. Every statement of these threads that reads or writes
shared state is one event of the thread. What the environment decides is in the event: the arguments of
a call, the device lookup, the random UUID, whether the push goes out and how `sendMessage` ends.

The object an `authenticate` call constructs and the countdown thread it starts are named by the call. -/
namespace Auth8.Server
open EventRuns Persistent Jaxrs Request
set_option autoImplicit false

structure Arguments where
  email : String
  authority : String
  timeout : Int
  points : Int
  purpose : String
  remoteAddr : String
  deriving DecidableEq, Repr

def Arguments.payload (args : Arguments) : List (String × String) :=
  [("timeout", toString args.timeout), ("authority", args.authority), ("origin", args.remoteAddr),
    ("points", toString args.points), ("purpose", args.purpose)]

structure Push where
  regid : String
  requestId : String
  payload : List (String × String)
  deriving DecidableEq, Repr

/-- How the query for the device ends: with a first row, with no row, or with another exception. -/
inductive Lookup where
  | found (device : Device)
  | empty
  | threw
  deriving DecidableEq, Repr

/-- How `SNSMobilePush.sendMessage` ends. -/
inductive SendExit where
  | returned
  | ioException
  | exception
  deriving DecidableEq, Repr

/-- The position of an `authenticate` call, with the local variables that are live there. -/
inductive AuthenticatePc where
  | lookup
  | getInstance (device : Device) (p : GetInstancePc)
  | construct (device : Device) (ls : Option ℕ)
  | pause (device : Device) (ls : Option ℕ)
  | startCountdown (device : Device) (ls : Option ℕ)
  | generate (device : Device) (ls : Option ℕ)
  | put (device : Device) (ls : Option ℕ) (uniqueRequestId : String)
  | send (device : Device) (uniqueRequestId : String)
  | sending (uniqueRequestId : String)
  | wait (uniqueRequestId : String)
  | readAuthenticated (uniqueRequestId : String)
  | readTimedout (uniqueRequestId : String) (authenticated : Bool)
  | respond (uniqueRequestId : String) (authenticated timedout : Bool)
  | answered (uniqueRequestId : String) (authenticated timedout : Bool) (response : Option Response)
  /-- returned from a catch clause after the put -/
  | failed (uniqueRequestId : String) (response : Option Response)
  /-- returned before the put -/
  | rejected (response : Option Response)
  deriving DecidableEq, Repr

def AuthenticatePc.afterGetInstance (device : Device) : GetInstancePc ⊕ Option ℕ → AuthenticatePc
  | .inl p => .getInstance device p
  | .inr ls => .construct device ls

structure Authenticate where
  args : Arguments
  pc : AuthenticatePc
  deriving DecidableEq, Repr

/-- The position of a `wake` call, with its local variables `ls` and `a`. -/
inductive WakePc where
  | getInstance (p : GetInstancePc)
  | get (ls : Option ℕ)
  | resume (a : ℕ) (p : ResumePc)
  | returned (a : ℕ) (response : Response)
  | threw
  deriving DecidableEq, Repr

def WakePc.afterGetInstance : GetInstancePc ⊕ Option ℕ → WakePc
  | .inl p => .getInstance p
  | .inr ls => .get ls

structure Wake where
  auth : Bool
  requestId : String
  pc : WakePc
  deriving DecidableEq, Repr

structure State where
  singleton : LazySingleton
  requests : ℕ → AuthRequest
  countdowns : ℕ → CountdownPc
  authenticates : ℕ → Option Authenticate
  wakes : ℕ → Option Wake
  /-- the UUIDs drawn so far -/
  uuids : List UUID
  pushes : List Push

inductive Event where
  /-- a request for `authenticate` arrives -/
  | authenticate (c : ℕ) (args : Arguments)
  | lookup (c : ℕ) (result : Lookup)
  | generate (c : ℕ) (uuid : UUID)
  | send (c : ℕ) (published : Bool)
  | sendReturn (c : ℕ) (exit : SendExit)
  /-- the next statement of an `authenticate` call, where it depends on nothing outside -/
  | run (c : ℕ)
  /-- a request for `wake` arrives -/
  | wake (w : ℕ) (auth : Bool) (requestId : String)
  | runWake (w : ℕ)
  /-- the next statement of a countdown thread -/
  | tick (c : ℕ)
  deriving DecidableEq, Repr

namespace State

def init : State where
  singleton := .init
  requests := fun _ => .default
  countdowns := fun _ => .notStarted
  authenticates := fun _ => none
  wakes := fun _ => none
  uuids := []
  pushes := []

def setAuthenticate (s : State) (c : ℕ) (args : Arguments) (pc : AuthenticatePc) : State :=
  { s with authenticates := Function.update s.authenticates c (some ⟨args, pc⟩) }

def setWake (s : State) (w : ℕ) (auth : Bool) (requestId : String) (pc : WakePc) : State :=
  { s with wakes := Function.update s.wakes w (some ⟨auth, requestId, pc⟩) }

def setRequest (s : State) (c : ℕ) (r : AuthRequest) : State :=
  { s with requests := Function.update s.requests c r }

def setCountdown (s : State) (c : ℕ) (p : CountdownPc) : State :=
  { s with countdowns := Function.update s.countdowns c p }

end State

/-- The response `authenticate` builds from the two values it has read. Without a device
`getDevice().getName()` throws, and the call returns null. -/
def answer (device : Option Device) (authenticated timedout : Bool) : Option Response :=
  match timedout, device with
  | true, _ => some (Success.response none (some
      [("authenticated", .bool authenticated), ("details", .str "time_out")]))
  | false, some device => some (Success.response none (some
      [("authenticated", .bool authenticated), ("details", .ofString device.name)]))
  | false, none => none

/-- The next statement of an `authenticate` call. A null `ls` makes the put throw, and `authenticate`
returns null from its last catch clause. -/
def stepAuthenticate (s : State) (c : ℕ) (args : Arguments) : AuthenticatePc → Option State
  | .getInstance device p =>
    (s.singleton.step (.authenticate c) p).map fun (g, next) =>
      { s with singleton := g }.setAuthenticate c args (.afterGetInstance device next)
  | .construct device ls =>
    some ((s.setRequest c (.create args.timeout device)).setAuthenticate c args (.pause device ls))
  | .pause device ls =>
    some ((s.setRequest c (s.requests c).pause).setAuthenticate c args (.startCountdown device ls))
  | .startCountdown device ls =>
    some ((s.setCountdown c (.loop 0)).setAuthenticate c args (.generate device ls))
  | .put device (some ls) id =>
    some ({ s with singleton := s.singleton.put ls id c }.setAuthenticate c args (.send device id))
  | .put _ none _ => some (s.setAuthenticate c args (.rejected none))
  | .wait id =>
    some (s.setAuthenticate c args
      (if (s.requests c).running then .readAuthenticated id else .wait id))
  | .readAuthenticated id =>
    some (s.setAuthenticate c args (.readTimedout id (s.requests c).authenticated))
  | .readTimedout id a => some (s.setAuthenticate c args (.respond id a (s.requests c).timedout))
  | .respond id a t =>
    some (s.setAuthenticate c args (.answered id a t (answer (s.requests c).device a t)))
  | _ => none

def stepWake (s : State) (w : ℕ) (auth : Bool) (requestId : String) : WakePc → Option State
  | .getInstance p =>
    (s.singleton.step (.wake w) p).map fun (g, next) =>
      { s with singleton := g }.setWake w auth requestId (.afterGetInstance next)
  | .get ls =>
    match ls.bind (s.singleton.get · requestId) with
    | some a => some (s.setWake w auth requestId (.resume a (.next .running)))
    | none => some (s.setWake w auth requestId .threw)
  | .resume a (.next f) =>
    some ((s.setRequest a ((s.requests a).assign auth false f)).setWake w auth requestId
      (.resume a f.after))
  | .resume a .done =>
    some (s.setWake w auth requestId (.returned a (Success.response (some "OK") (some []))))
  | _ => none

def stepCountdown (s : State) (c : ℕ) : CountdownPc → Option State
  | .notStarted => none
  | .loop i =>
    some (s.setCountdown c
      (if (i : Int) < (s.requests c).timeout then .loop (i + 1) else .resume (.next .running)))
  | .resume (.next f) =>
    some ((s.setRequest c ((s.requests c).assign false true f)).setCountdown c (.resume f.after))
  | .resume .done => none

def step (s : State) : Event → Option State
  | .authenticate c args =>
    whenever (s.authenticates c = none) (s.setAuthenticate c args .lookup)
  | .lookup c result =>
    match s.authenticates c with
    | some ⟨args, .lookup⟩ =>
      some (s.setAuthenticate c args
        (match result with
          | .found device => .getInstance device .check
          | .empty => .rejected (some (errorResponse 503 .DEVICE_NOT_REGISTERED))
          | .threw => .rejected none))
    | _ => none
  | .generate c uuid =>
    match s.authenticates c with
    | some ⟨args, .generate device ls⟩ =>
      whenever (uuid ∉ s.uuids)
        ({ s with uuids := uuid :: s.uuids }.setAuthenticate c args
          (.put device ls (uniqueRequestId uuid)))
    | _ => none
  | .send c published =>
    match s.authenticates c with
    | some ⟨args, .send device id⟩ =>
      some ({ s with pushes := if published then ⟨device.regid, id, args.payload⟩ :: s.pushes
          else s.pushes }.setAuthenticate c args (.sending id))
    | _ => none
  | .sendReturn c exit =>
    match s.authenticates c with
    | some ⟨args, .sending id⟩ =>
      some (s.setAuthenticate c args
        (match exit with
          | .returned => .wait id
          | .ioException => .failed id (some (errorResponse 503 .SERVER_ERROR))
          | .exception => .failed id none))
    | _ => none
  | .run c => (s.authenticates c).bind fun th => stepAuthenticate s c th.args th.pc
  | .wake w auth requestId =>
    whenever (s.wakes w = none) (s.setWake w auth requestId (.getInstance .check))
  | .runWake w => (s.wakes w).bind fun th => stepWake s w th.auth th.requestId th.pc
  | .tick c => stepCountdown s c (s.countdowns c)

/-- The id of the first UUID drawn in the schedules below. -/
def firstId : String := uniqueRequestId ⟨0x0123456789ab4def#64, 0x8123456789abcdef#64⟩

/-- A call that creates the singleton and waits for the phone, which has got its push. -/
def pushSent : List Event :=
  [.authenticate 0 ⟨"user@example.com", "acme", 30, 1, "login", "10.0.0.1"⟩,
    .lookup 0 (.found ⟨"user@example.com", some "phone", "gcm"⟩)] ++
  List.replicate 9 (.run 0) ++
  [.generate 0 ⟨0x0123456789ab4def#64, 0x8123456789abcdef#64⟩, .run 0, .send 0 true,
    .sendReturn 0 .returned]

/-- The phone approves, and the call returns. -/
def approval : List Event :=
  pushSent ++ [.wake 0 true firstId] ++ List.replicate 7 (.runWake 0) ++ List.replicate 4 (.run 0)

end Auth8.Server
