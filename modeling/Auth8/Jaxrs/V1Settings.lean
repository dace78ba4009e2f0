import Auth8.Foundations.EventRuns
import Auth8.Jaxrs.Response
import Auth8.Persistent.User
import Auth8.Server.UniqueRequestId
import Mathlib.Logic.Function.Basic

/-! # The class `V1Settings`

`createUser`, `deleteUser` and `getUsers` on the one static `context` of the class. A request is executed
one context operation at a time, and any number of requests may be under way; `commitChanges` commits what
is pending in the context, whichever request it comes from, or throws and leaves it pending. -/
namespace Auth8.Jaxrs
open EventRuns KeyedTable Persistent Server
set_option autoImplicit false

inductive SettingsRequest where
  /-- with the two UUIDs that are going to be drawn -/
  | createUser (u v : UUID)
  | deleteUser (publicKeys : List String)
  | getUsers
  deriving DecidableEq, Repr

/-- The next context operation of a request, with what the rest of the request needs. -/
inductive SettingsPc where
  | newObject (u v : UUID)
  | setPublicKey (u v : UUID)
  | setPrivateKey (u v : UUID)
  | commitUser (u v : UUID)
  | queryUser (publicKey : String) (rest : List String)
  | deleteObjects (row : ℕ) (rest : List String)
  | commitDelete (row : ℕ) (rest : List String)
  | queryUsers
  | returned (response : Response)
  /-- an exception has left the method -/
  | threw
  deriving DecidableEq, Repr

def deleteLoop : List String → SettingsPc
  | [] => .returned (Success.response (some "The specified keys have been removed from service.") none)
  | publicKey :: rest => .queryUser publicKey rest

def SettingsRequest.start : SettingsRequest → SettingsPc
  | .createUser u v => .newObject u v
  | .deleteUser publicKeys => deleteLoop publicKeys
  | .getUsers => .queryUsers

def newUser (u v : UUID) : User := ⟨some (removeHyphens u.toString), some v.toString⟩

def createdResponse (u v : UUID) : Response :=
  Success.response none (some
    [("public_key", .ofString (newUser u v).publicKey), ("private_key", .ofString (newUser u v).privateKey)])

/-- `getUsers` lists the public keys the objects of the context show. -/
def usersResponse (order : UserOrder) (context : UnitOfWork User) (t : UserTable) : Response :=
  Success.response none (some
    [("public_keys", .list ((order.arrange (context.read t)).map fun row => row.2.publicKey))])

/-- An operation of the request `i` other than a commit. -/
def SettingsPc.operate (order : UserOrder) (t : UserTable) (context : UnitOfWork User) (i : ℕ) :
    SettingsPc → Option (SettingsPc × UnitOfWork User)
  | .newObject u v => some (.setPublicKey u v, context.newObject i ⟨none, none⟩)
  | .setPublicKey u v =>
    some (.setPrivateKey u v, context.modify i (User.setPublicKey (removeHyphens u.toString)))
  | .setPrivateKey u v => some (.commitUser u v, context.modify i (User.setPrivateKey v.toString))
  | .queryUser publicKey rest =>
    match queryPublicKey order t publicKey with
    | some row => some (.deleteObjects row.1 rest, context)
    -- `get(0)` throws
    | none => some (.threw, context)
  | .deleteObjects row rest => some (.commitDelete row rest, context.deleteObject row)
  | .queryUsers => some (.returned (usersResponse order context t), context)
  | _ => none

def SettingsPc.afterCommit : SettingsPc → Option SettingsPc
  | .commitUser u v => some (.returned (createdResponse u v))
  | .commitDelete _ rest => some (deleteLoop rest)
  | _ => none

structure SettingsState where
  table : UserTable
  context : UnitOfWork User
  calls : ℕ → Option SettingsPc

inductive SettingsEvent where
  | arrive (i : ℕ) (request : SettingsRequest)
  /-- the next operation of the request `i` -/
  | run (i : ℕ)
  /-- `commitChanges` of the request `i`, which succeeds or throws -/
  | commit (i : ℕ) (ok : Bool)
  deriving DecidableEq, Repr

def SettingsState.init (t : UserTable) : SettingsState := ⟨t, .empty, fun _ => none⟩

def settingsStep (order : UserOrder) (s : SettingsState) : SettingsEvent → Option SettingsState
  | .arrive i request =>
    whenever (s.calls i = none) { s with calls := Function.update s.calls i (some request.start) }
  | .run i =>
    (s.calls i).bind fun pc =>
      (pc.operate order s.table s.context i).map fun (q, context) =>
        { s with context := context, calls := Function.update s.calls i (some q) }
  | .commit i ok =>
    (s.calls i).bind fun pc => pc.afterCommit.map fun q =>
      if ok then
        { table := s.context.commit s.table
          context := s.context.committed s.table
          calls := Function.update s.calls i (some q) }
      else { s with calls := Function.update s.calls i (some .threw) }

/-! ## What a request has pending -/

/-- The new object of the request, not yet committed. -/
def SettingsPc.object : SettingsPc → Option User
  | .setPublicKey _ _ => some ⟨none, none⟩
  | .setPrivateKey u _ => some ⟨some (removeHyphens u.toString), none⟩
  | .commitUser u v => some (newUser u v)
  | _ => none

/-- The row the request has deleted, not yet committed. -/
def SettingsPc.deleting : SettingsPc → Option ℕ
  | .commitDelete row _ => some row
  | _ => none

/-- The row the request is about to delete. -/
def SettingsPc.found : SettingsPc → Option ℕ
  | .deleteObjects row _ | .commitDelete row _ => some row
  | _ => none

/-- The new object of the request lacks a key. -/
def SettingsPc.isHalf : SettingsPc → Bool
  | .setPublicKey _ _ | .setPrivateKey _ _ => true
  | _ => false

def SettingsPc.isEnded : SettingsPc → Bool
  | .returned _ | .threw => true
  | _ => false

@[simp] theorem deleteLoop_object (keys : List String) : (deleteLoop keys).object = none := by
  cases keys <;> rfl

@[simp] theorem deleteLoop_found (keys : List String) : (deleteLoop keys).found = none := by
  cases keys <;> rfl

@[simp] theorem start_object (request : SettingsRequest) : request.start.object = none := by
  cases request with
  | deleteUser keys => exact deleteLoop_object keys
  | createUser | getUsers => rfl

@[simp] theorem start_found (request : SettingsRequest) : request.start.found = none := by
  cases request with
  | deleteUser keys => exact deleteLoop_found keys
  | createUser | getUsers => rfl

theorem SettingsPc.found_of_object {pc : SettingsPc} {user : User} (h : pc.object = some user) :
    pc.found = none := by
  cases pc <;> first | rfl | cases h

theorem SettingsPc.deleting_of_found {pc : SettingsPc} (h : pc.found = none) : pc.deleting = none := by
  cases pc <;> first | rfl | cases h

theorem SettingsPc.object_of_isEnded {pc : SettingsPc} (h : pc.isEnded = true) : pc.object = none := by
  cases pc <;> first | rfl | cases h

theorem SettingsPc.found_of_isEnded {pc : SettingsPc} (h : pc.isEnded = true) : pc.found = none := by
  cases pc <;> first | rfl | cases h

/-! ## Steps -/

section
variable {order : UserOrder} {t : UserTable} {w w' : UnitOfWork User} {i : ℕ} {pc q : SettingsPc}

/-- What an operation other than a commit can do: the positions before and after it, and the context it
leaves. -/
inductive Operation (t : UserTable) (w : UnitOfWork User) (i : ℕ) :
    SettingsPc → SettingsPc → UnitOfWork User → Prop where
  | create (u v : UUID) :
      Operation t w i (.newObject u v) (.setPublicKey u v) (w.newObject i ⟨none, none⟩)
  | write (pc q : SettingsPc) (user : User) (f : User → User) (hpc : pc.object = some user)
      (hq : q.object = some (f user)) (hfound : q.found = none) (hhalf : pc.isHalf = true) :
      Operation t w i pc q (w.modify i f)
  | read (pc q : SettingsPc) (hlive : pc.isEnded = false) (hpc : pc.object = none)
      (hq : q.object = none) (hdel : pc.deleting = none) (hdel' : q.deleting = none)
      (hfound : ∀ row, q.found = some row → ∃ user, (row, user) ∈ t.rows) : Operation t w i pc q w
  | delete (row : ℕ) (rest : List String) :
      Operation t w i (.deleteObjects row rest) (.commitDelete row rest) (w.deleteObject row)

theorem Operation.live (h : Operation t w i pc q w') : pc.isEnded = false := by
  cases h with
  | write _ _ _ _ hpc =>
    by_contra hend
    rw [Bool.not_eq_false] at hend
    rw [SettingsPc.object_of_isEnded hend] at hpc
    cases hpc
  | read _ _ hlive => exact hlive
  | create | delete => rfl

theorem operation_of_operate (h : pc.operate order t w i = some (q, w')) : Operation t w i pc q w' := by
  cases pc with
  | newObject u v =>
    cases h
    exact .create u v
  | setPublicKey u v | setPrivateKey u v =>
    cases h
    exact .write _ _ _ _ rfl rfl rfl rfl
  | queryUser publicKey rest =>
    simp only [SettingsPc.operate] at h
    split at h
    · rename_i row hrow
      cases h
      refine .read _ _ rfl rfl rfl rfl rfl ?_
      rintro _ ⟨⟩
      exact ⟨row.2, (of_first hrow).1⟩
    · cases h
      exact .read _ _ rfl rfl rfl rfl rfl nofun
  | deleteObjects row rest =>
    cases h
    exact .delete row rest
  | queryUsers =>
    cases h
    exact .read _ _ rfl rfl rfl rfl rfl nofun
  | commitUser | commitDelete | returned | threw => cases h

/-- The request that commits is at the commit of its object or of its deletion. -/
theorem afterCommit_cases (h : pc.afterCommit = some q) :
    (∃ u v, pc = .commitUser u v ∧ q = .returned (createdResponse u v)) ∨
      ∃ row rest, pc = .commitDelete row rest ∧ q = deleteLoop rest := by
  cases pc with
  | commitUser u v =>
    cases h
    exact .inl ⟨u, v, rfl, rfl⟩
  | commitDelete row rest =>
    cases h
    exact .inr ⟨row, rest, rfl, rfl⟩
  | _ => cases h

theorem afterCommit_isHalf (h : pc.afterCommit = some q) : pc.isHalf = false := by
  rcases afterCommit_cases h with ⟨u, v, rfl, _⟩ | ⟨row, rest, rfl, _⟩ <;> rfl

theorem afterCommit_object (h : pc.afterCommit = some q) : q.object = none := by
  rcases afterCommit_cases h with ⟨u, v, _, rfl⟩ | ⟨row, rest, _, rfl⟩
  · rfl
  · exact deleteLoop_object rest

theorem afterCommit_found (h : pc.afterCommit = some q) : q.found = none := by
  rcases afterCommit_cases h with ⟨u, v, _, rfl⟩ | ⟨row, rest, _, rfl⟩
  · rfl
  · exact deleteLoop_found rest

/-- A step is an arrival, an operation, a commit, or a commit that throws. -/
inductive Step (s : SettingsState) : SettingsEvent → SettingsState → Prop where
  | arrive (i : ℕ) (request : SettingsRequest) (hi : s.calls i = none) :
      Step s (.arrive i request)
        { s with calls := Function.update s.calls i (some request.start) }
  | operate (i : ℕ) (pc q : SettingsPc) (w : UnitOfWork User) (hi : s.calls i = some pc)
      (hop : Operation s.table s.context i pc q w) :
      Step s (.run i) { s with context := w, calls := Function.update s.calls i (some q) }
  | commit (i : ℕ) (pc q : SettingsPc) (hi : s.calls i = some pc) (hq : pc.afterCommit = some q) :
      Step s (.commit i true)
        { table := s.context.commit s.table
          context := s.context.committed s.table
          calls := Function.update s.calls i (some q) }
  | fail (i : ℕ) (pc q : SettingsPc) (hi : s.calls i = some pc) (hq : pc.afterCommit = some q) :
      Step s (.commit i false) { s with calls := Function.update s.calls i (some .threw) }

theorem step_of_settingsStep {s s' : SettingsState} {e : SettingsEvent}
    (h : settingsStep order s e = some s') : Step s e s' := by
  cases e with
  | arrive i request =>
    obtain ⟨hi, rfl⟩ := whenever_eq_some.mp h
    exact .arrive i request hi
  | run i =>
    obtain ⟨pc, hi, h⟩ := Option.bind_eq_some_iff.mp h
    obtain ⟨⟨q, w⟩, hop, rfl⟩ := Option.map_eq_some_iff.mp h
    exact .operate i pc q w hi (operation_of_operate hop)
  | commit i ok =>
    obtain ⟨pc, hi, h⟩ := Option.bind_eq_some_iff.mp h
    obtain ⟨q, hq, rfl⟩ := Option.map_eq_some_iff.mp h
    cases ok with
    | true => exact .commit i pc q hi hq
    | false => exact .fail i pc q hi hq

end

end Auth8.Jaxrs
