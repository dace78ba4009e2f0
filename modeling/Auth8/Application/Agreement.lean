import Auth8.Application.Pushes

/-! # What an approval says

Where ids are known from pushes only, an answer `authenticated = true` goes back to the phone: the push of
the call was sent to a `regid` registered for the email asked for, and its id came back in `wake(true, id)`. -/
namespace Auth8.Application
open EventRuns KeyedTable LikePattern Persistent Jaxrs Devices
set_option autoImplicit false

variable {K : String → String → Prop} {t₀ : DeviceTable} {s s' : State}
variable {c : ℕ} {id : String} {args : Server.Arguments}

/-! ## What the callers do -/

def wakeId : Event → Option String
  | .server (.wake _ _ requestId) => some requestId
  | _ => none

def registeredEmail : Event → Option String
  | .device _ (.arrive _ (.reg email _ _)) => email
  | _ => none

/-- The email has no wildcard and no escape character. -/
def PlainEmail (email : String) : Prop := email.toList.all isPlain = true

instance (email : String) : Decidable (PlainEmail email) := inferInstanceAs (Decidable (_ = true))

/-- A `wake` is called with the id of a push, and an email that is registered stands for itself. -/
structure Honest (s : State) (e : Event) : Prop where
  wake : ∀ requestId ∈ wakeId e, ∃ p ∈ s.server.pushes, p.requestId = requestId
  email : ∀ email ∈ registeredEmail e, PlainEmail email

instance (s : State) (e : Event) : Decidable (Honest s e) :=
  decidable_of_iff ((∀ requestId ∈ wakeId e, ∃ p ∈ s.server.pushes, p.requestId = requestId) ∧
    ∀ email ∈ registeredEmail e, PlainEmail email) ⟨fun h => ⟨h.1, h.2⟩, fun h => ⟨h.1, h.2⟩⟩

/-- The id of every `wake` is that of a push. -/
def Answering (s : State) : Prop :=
  ∀ w th, s.server.wakes w = some th → ∃ p ∈ s.server.pushes, p.requestId = th.requestId

theorem Answering.server {e : Server.Event} (h : Answering s)
    (hpushed : ∀ requestId ∈ wakeId (.server e), ∃ p ∈ s.server.pushes, p.requestId = requestId)
    (hstep : Server.step s.server e = some s'.server) : Answering s' := by
  intro w th hw
  have hold : ∃ p ∈ s.server.pushes, p.requestId = th.requestId := by
    cases Server.step_wakes hstep w th hw with
    | inl hbefore =>
      obtain ⟨th', hth', hid⟩ := hbefore
      rw [← hid]
      exact h w th' hth'
    | inr hnew =>
      obtain ⟨auth, rfl⟩ := hnew
      exact hpushed _ rfl
  obtain ⟨p, hp, hid⟩ := hold
  exact ⟨p, (Server.step_holds hstep).sent hp, hid⟩

theorem answering_step {e : Event} (h : Answering s) (hhonest : Honest s e)
    (he : step s e = some s') : Answering s' := by
  cases e with
  | device order e =>
    obtain ⟨devices, _, rfl⟩ := Option.map_eq_some_iff.mp he
    exact h
  | query c order throws =>
    obtain ⟨th, _, he⟩ := Option.bind_eq_some_iff.mp he
    obtain ⟨server, hserver, rfl⟩ := Option.map_eq_some_iff.mp he
    exact h.server (fun _ hid => by cases hid) hserver
  | server e =>
    simp only [step] at he
    split at he
    · cases he
    · obtain ⟨server, hserver, rfl⟩ := Option.map_eq_some_iff.mp he
      exact h.server hhonest.wake hserver

/-! ## Emails without wildcards -/

theorem PlainEmail.like_iff {email : String} (h : PlainEmail email) (other : String) :
    like email other = true ↔ email = other :=
  like_plain (List.all_eq_true.mp h) other

/-- The email of a registration is literal. -/
def PlainCall (d : Call × CallPc) : Prop :=
  ∀ email regId name pc, d = (.reg (some email) regId name, pc) → PlainEmail email

def PlainCalls (s : DeviceState) : Prop := ∀ i d, s.calls i = some d → PlainCall d

theorem plainCalls_step {order : DeviceOrder} {e : DeviceEvent} {m m' : DeviceState}
    (h : PlainCalls m) (hplain : ∀ email ∈ registeredEmail (.device order e), PlainEmail email)
    (he : deviceStep order m e = some m') : PlainCalls m' := by
  cases e with
  | arrive i c =>
    obtain ⟨_, rfl⟩ := whenever_eq_some.mp he
    refine forall_update (P := PlainCall) rfl ?_ fun j d _ => h j d
    intro email regId name pc hd
    obtain ⟨rfl, _⟩ := Prod.mk.inj hd
    exact hplain email rfl
  | run i =>
    obtain ⟨⟨c, pc⟩, hc, he⟩ := Option.bind_eq_some_iff.mp he
    obtain ⟨⟨q, t⟩, _, rfl⟩ := Option.map_eq_some_iff.mp he
    refine forall_update (P := PlainCall) rfl ?_ fun j d _ => h j d
    intro email regId name pc' hd
    obtain ⟨rfl, _⟩ := Prod.mk.inj hd
    exact h i _ hc email regId name pc rfl

/-- What honest callers keep. -/
structure Trusted (s : State) : Prop where
  answering : Answering s
  plain : PlainCalls s.devices

theorem trusted_step {e : Event} (h : Trusted s) (hhonest : Honest s e) (he : step s e = some s') :
    Trusted s' := by
  refine ⟨answering_step h.answering hhonest he, ?_⟩
  cases e with
  | device order e =>
    obtain ⟨devices, hdevices, rfl⟩ := Option.map_eq_some_iff.mp he
    exact plainCalls_step h.plain hhonest.email hdevices
  | query c order throws =>
    obtain ⟨th, _, he⟩ := Option.bind_eq_some_iff.mp he
    obtain ⟨server, _, rfl⟩ := Option.map_eq_some_iff.mp he
    exact h.plain
  | server e =>
    simp only [step] at he
    split at he
    · cases he
    · obtain ⟨server, _, rfl⟩ := Option.map_eq_some_iff.mp he
      exact h.plain

theorem trusted_init (t₀ : DeviceTable) : Trusted (.init t₀) :=
  ⟨fun _ _ hw => (Option.some_ne_none _ hw.symm).elim,
    fun _ _ hd => (Option.some_ne_none _ hd.symm).elim⟩

/-- A literal call that may write a row of the email is a call with this email. -/
theorem selects_plain {m : DeviceState} {m' : DeviceState} {call : Option String} {email regid : String}
    (hcalls : PlainCalls m) (hcommits : Commits call regid m m') (hselects : Selects call email) :
    call = some email := by
  obtain ⟨i, name, plan, hi, _⟩ := hcommits
  cases hselects with
  | inl heq => exact heq
  | inr hlike =>
    cases call with
    | none => cases hlike
    | some call => rw [((hcalls i _ hi call _ name _ rfl).like_iff email).mp hlike]

/-! ## The call of a push -/

/-- A push with the id of a call is that of the call. -/
theorem issued_to {p : Server.Push} {pc : Server.AuthenticatePc} (h : Reachable step (.init t₀) s)
    (haddressed : Addressed K s) (hp : p ∈ s.server.pushes)
    (hc : s.server.authenticates c = some ⟨args, pc⟩) (hput : pc.putId = some p.requestId) :
    p.payload = args.payload ∧ ∃ device, p.regid = device.regid ∧ Eligible K args.email device := by
  obtain ⟨d, args', device, hdput, ⟨pc', hd⟩, hpayload, hregid, heligible⟩ := haddressed.pushes p hp
  have hs := Server.reachable_inv (server_reachable h)
  have hcput : s.server.putIdOf c = some p.requestId := by
    rw [Server.State.putIdOf, hc]
    exact hput
  obtain rfl : d = c :=
    Option.some.inj (((hs.registered _ _).mpr hdput).symm.trans ((hs.registered _ _).mpr hcput))
  rw [hc] at hd
  cases hd
  exact ⟨hpayload, device, hregid, heligible⟩

theorem approved_of_trusted {a timedout : Bool} {details : Value} (h : Reachable step (.init t₀) s)
    (haddressed : Addressed K s) (htrusted : Trusted s) (hemail : PlainEmail args.email)
    (hc : s.server.authenticates c = some ⟨args, .answered id a timedout (some
      (Success.response none (some [("authenticated", .bool true), ("details", details)])))⟩) :
    (∃ p ∈ s.server.pushes, p.requestId = id ∧ p.payload = args.payload ∧ K args.email p.regid) ∧
    ∃ w th, s.server.wakes w = some th ∧ th.auth = true ∧ th.requestId = id := by
  obtain ⟨w, th, hw, hauth, hid⟩ := Server.approver_of_answer (server_reachable h) hc
  obtain ⟨p, hp, hpid⟩ := htrusted.answering w th hw
  obtain rfl := hpid.trans hid
  obtain ⟨hpayload, device, hregid, hknown, hlike⟩ := issued_to h haddressed hp hc rfl
  refine ⟨⟨p, hp, rfl, hpayload, ?_⟩, w, th, hw, hauth, hid⟩
  rw [hregid, (hemail.like_iff device.email).mp hlike]
  exact hknown

/-- Where callers are honest, the devices held and pushed to are registered for their very emails. -/
theorem registered_of_run {es : List Event} (hhonest : Along step Honest (.init t₀) es)
    (h : run step (.init t₀) es = some s) :
    Trusted s ∧ Addressed (RegisteredFor step State.devices (.init t₀) es) s := by
  refine run_steps (P := fun s => Trusted s ∧ Addressed _ s)
    ⟨trusted_init t₀, addressed_init fun email regid hrow => .inl hrow⟩ ?_ h
  rintro pre e m m' hpre hm he ⟨htrusted, haddressed⟩
  refine ⟨trusted_step htrusted (hhonest.of_prefix hpre hm) he, addressed_step haddressed he ?_⟩
  rintro email regid ⟨⟨call, hcommits, hselects⟩, hrow⟩
  obtain rfl := selects_plain htrusted.plain hcommits hselects
  exact .inr ⟨pre, e, m, m', hpre, hm, he, hcommits, hrow⟩

/-! ## The results -/

/-- Every push belongs to one `authenticate` call and carries its arguments; it goes to a `regid` that in
some state of the run was stored under an email that the call's is a pattern of, and no id is pushed
twice. -/
theorem pushes_addressed {es : List Event} (h : run step (.init t₀) es = some s) :
    (s.server.pushes.map Server.Push.requestId).Nodup ∧
    ∀ p ∈ s.server.pushes, ∃ c args, (∃ pc, s.server.authenticates c = some ⟨args, pc⟩) ∧
      s.server.putIdOf c = some p.requestId ∧
      (∀ d, s.server.putIdOf d = some p.requestId → d = c) ∧ p.payload = args.payload ∧
      ∃ email, Stored step State.devices (.init t₀) es email p.regid ∧ like args.email email = true := by
  have hserver := server_reachable (.of_run h)
  refine ⟨(Server.sentOnce_of_reachable hserver).nodup, fun p hp => ?_⟩
  obtain ⟨c, args, device, hput, hc, hpayload, hregid, hstored, hlike⟩ :=
    (addressed_of_run h).pushes p hp
  rw [← hregid] at hstored
  refine ⟨c, args, hc, hput, fun d hd => ?_, hpayload, device.email, hstored, hlike⟩
  have hs := Server.reachable_inv hserver
  exact Option.some.inj (((hs.registered _ _).mpr hd).symm.trans ((hs.registered _ _).mpr hput))

/-- Where ids are known from pushes only and emails stand for themselves, a call answers
`authenticated = true` only after its push was sent to a `regid` registered for its email and its id came
back in `wake(true, id)`. -/
theorem approved_by_registered_phone {es : List Event} {a timedout : Bool} {details : Value}
    (hhonest : Along step Honest (.init t₀) es) (h : run step (.init t₀) es = some s)
    (hemail : PlainEmail args.email)
    (hc : s.server.authenticates c = some ⟨args, .answered id a timedout (some
      (Success.response none (some [("authenticated", .bool true), ("details", details)])))⟩) :
    (∃ p ∈ s.server.pushes, p.requestId = id ∧ p.payload = args.payload ∧
      RegisteredFor step State.devices (.init t₀) es args.email p.regid) ∧
    ∃ w th, s.server.wakes w = some th ∧ th.auth = true ∧ th.requestId = id := by
  obtain ⟨htrusted, haddressed⟩ := registered_of_run hhonest h
  exact approved_of_trusted (.of_run h) haddressed htrusted hemail hc

/-! ## A run -/

def registeredApproval : List Event :=
  [.device (.asStored _) (.arrive 0 (.reg (some "user@example.com") (some "gcm") (some "phone"))),
    .device (.asStored _) (.run 0), .device (.asStored _) (.run 0),
    .server (.authenticate 0 ⟨"user@example.com", "acme", 30, 1, "login", "10.0.0.1"⟩),
    .query 0 (.asStored _) false] ++
  ((Server.approval.drop 2).map .server)

theorem registeredApproval_runs :
    (run step (.init (.empty 200)) registeredApproval).isSome = true := by decide +kernel

/-- The phone registers, and a call for its email ends with its approval. -/
def approvedState : State := (run step (.init (.empty 200)) registeredApproval).get registeredApproval_runs

theorem approvedState_run : run step (.init (.empty 200)) registeredApproval = some approvedState :=
  (Option.some_get registeredApproval_runs).symm

theorem approvedState_answer : approvedState.server.authenticates 0 = some
    ⟨⟨"user@example.com", "acme", 30, 1, "login", "10.0.0.1"⟩, .answered Server.firstId true false (some
      (Success.response none (some [("authenticated", .bool true), ("details", .str "phone")])))⟩ := by
  decide +kernel

theorem registeredApproval_pushes : (approvedState.server.pushes.map Server.Push.requestId).Nodup :=
  (pushes_addressed approvedState_run).1

theorem registeredApproval_approved : ∃ p ∈ approvedState.server.pushes,
    p.requestId = Server.firstId ∧
      p.payload = Server.Arguments.payload ⟨"user@example.com", "acme", 30, 1, "login", "10.0.0.1"⟩ ∧
      RegisteredFor step State.devices (.init (.empty 200)) registeredApproval "user@example.com" p.regid :=
  (approved_by_registered_phone (by decide +kernel) approvedState_run (by decide +kernel)
    approvedState_answer).1

end Auth8.Application
