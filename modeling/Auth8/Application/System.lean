import Auth8.Devices.Serial
import Auth8.Server.Invariant

/-! # The application

The running server and the table `DEVICE` together. The calls of `V1RegDevice` go their own way on the
table; an `authenticate` call queries it once. A call that a database error ends is one that takes no
further event. -/
namespace Auth8.Application
open EventRuns KeyedTable Persistent Jaxrs Devices
set_option autoImplicit false

structure State where
  devices : DeviceState
  server : Server.State

inductive Event where
  /-- an event of `regNewDevice` or `deleteDevice`; its query returns the rows in the order given -/
  | device (order : DeviceOrder) (e : DeviceEvent)
  /-- the query of an `authenticate` call, which may also throw -/
  | query (c : ℕ) (order : DeviceOrder) (throws : Bool)
  /-- any other event of the server -/
  | server (e : Server.Event)

def State.init (t : DeviceTable) : State := ⟨.init t, .init⟩

/-- `performQuery(deviceQ).get(0)`. -/
def lookup (order : DeviceOrder) (t : DeviceTable) (email : String) (throws : Bool) : Server.Lookup :=
  if throws then .threw
  else match queryEmail order t (some email) with
    | some row => .found row.2
    | none => .empty

def isLookup : Server.Event → Bool
  | .lookup _ _ => true
  | _ => false

def step (s : State) : Event → Option State
  | .device order e => (deviceStep order s.devices e).map fun devices => { s with devices := devices }
  | .query c order throws =>
    (s.server.authenticates c).bind fun th =>
      (Server.step s.server (.lookup c (lookup order s.devices.table th.args.email throws))).map
        fun server => { s with server := server }
  | .server e =>
    if isLookup e then none
    else (Server.step s.server e).map fun server => { s with server := server }

variable {s s' : State}

/-! ## The two halves of a run -/

/-- The server takes its events as it does with an arbitrary device lookup. -/
theorem step_server {e : Event} (h : step s e = some s') :
    s'.server = s.server ∨ ∃ e', Server.step s.server e' = some s'.server := by
  cases e with
  | device order e =>
    obtain ⟨devices, _, rfl⟩ := Option.map_eq_some_iff.mp h
    exact .inl rfl
  | query c order throws =>
    obtain ⟨th, _, h⟩ := Option.bind_eq_some_iff.mp h
    obtain ⟨server, hserver, rfl⟩ := Option.map_eq_some_iff.mp h
    exact .inr ⟨_, hserver⟩
  | server e =>
    simp only [step] at h
    split at h
    · cases h
    · obtain ⟨server, hserver, rfl⟩ := Option.map_eq_some_iff.mp h
      exact .inr ⟨e, hserver⟩

theorem server_reachable {t : DeviceTable} (h : Reachable step (.init t) s) :
    Reachable Server.step .init s.server :=
  h.project (f := State.server) fun _ _ _ _ he => step_server he

end Auth8.Application
