import Auth8.Application.Agreement
import Auth8.Application.Service

/-! # What reaches the phone

The application on the service is the application with one event for each push, and the messages that the
service has accepted are its pushes. A call whose push the service rejects is not told, and an approval is
never for one of these. -/
namespace Auth8.Application
open EventRuns KeyedTable Persistent Jaxrs Devices Aws
set_option autoImplicit false

variable {σ : Type} {sns : AmazonSNS σ} {D : Acceptance sns} {jsonify : Json → Option String}
variable {serverAPIKey : String} {s s' : ServiceState σ} {e : ServiceEvent} {c : ℕ}
variable {K : String → String → Prop} {t₀ : DeviceTable} {m : σ}

/-! ## What an event is for the application and for the service -/

theorem sendMessage_isSend {composed published : Bool} {pc q : DemoPc} :
    ∀ e ∈ sendMessage c composed published pc q, Server.isSend e = true := by
  unfold sendMessage
  split <;> simp [Server.isSend]

theorem app_cases (he : serviceStep D jsonify serverAPIKey s e = some s') :
    (∃ e', e = .app e' ∧ step s.app e' = some s'.app) ∨
    ∃ es : List Server.Event, (∀ e' ∈ es, Server.isSend e' = true) ∧
      run step s.app (es.map .server) = some s'.app := by
  cases e with
  | app e =>
    simp only [serviceStep] at he
    split at he
    · cases he
    · obtain ⟨app, happ, rfl⟩ := Option.map_eq_some_iff.mp he
      exact .inl ⟨e, rfl, happ⟩
  | start c =>
    simp only [serviceStep] at he
    split at he
    · obtain ⟨push, _, rfl⟩ := Option.map_eq_some_iff.mp he
      exact .inr ⟨[], List.forall_mem_nil _, rfl⟩
    · cases he
  | refuse c io =>
    simp only [serviceStep] at he
    split at he
    · obtain ⟨app, happ, rfl⟩ := Option.map_eq_some_iff.mp he
      exact .inr ⟨[.send c false, .sendReturn c _], by simp [Server.isSend], happ⟩
    · cases he
  | remote c =>
    obtain ⟨call, q, _, _, _, _, hrun⟩ := remote_cases he
    exact .inr ⟨_, sendMessage_isSend, hrun⟩

theorem app_reachable (h : Reachable (serviceStep D jsonify serverAPIKey) (.init t₀ m) s) :
    Reachable step (.init t₀) s.app := by
  refine h.induct (P := fun s => Reachable step (.init t₀) s.app) (.refl _) fun _ _ _ _ ih he => ?_
  obtain ⟨e', _, he'⟩ | ⟨es, _, hrun⟩ := app_cases he
  · exact ih.tail he'
  · exact ih.trans (.of_run hrun)

/-! ## The devices of the pushes -/

theorem addressed_service_step (h : Addressed K s.app) (he : serviceStep D jsonify serverAPIKey s e = some s')
    (hK : ∀ email regid, Writes email regid s.app.devices s'.app.devices → K email regid) :
    Addressed K s'.app := by
  obtain ⟨e', _, he'⟩ | ⟨es, _, hrun⟩ := app_cases he
  · exact addressed_step h he' hK
  · refine run_along (C := fun _ e => ∃ e', e = .server e') ?_ h ?_ hrun
    · rintro a _ a' haddressed ⟨e', rfl⟩ he'
      exact haddressed.other he'
    · refine along_of_forall fun a e he => ?_
      obtain ⟨e', _, rfl⟩ := List.mem_map.mp he
      exact ⟨e', rfl⟩

theorem addressed_of_service_run {es : List ServiceEvent}
    (h : run (serviceStep D jsonify serverAPIKey) (.init t₀ m) es = some s) :
    Addressed (Stored (serviceStep D jsonify serverAPIKey) (fun s => s.app.devices) (.init t₀ m) es)
      s.app := by
  refine run_steps (P := fun s => Addressed
    (Stored (serviceStep D jsonify serverAPIKey) (fun s => s.app.devices) (.init t₀ m) es) s.app) ?_ ?_ h
  · exact addressed_init fun email regid hrow => ⟨_, visits_self _ _, hrow⟩
  intro pre e k k' hpre hk he haddressed
  exact addressed_service_step haddressed he fun email regid hwrites =>
    ⟨k', .of_step hpre hk he, hwrites.2⟩

/-! ## What an event is for the service -/

/-- No deletion by this event falls between the creation and the publication of another push. -/
def Considerate (s : ServiceState σ) : ServiceEvent → Prop
  | .remote c => Undisturbing s.push (.run c)
  | _ => True

theorem push_cases_of_step (he : serviceStep D jsonify serverAPIKey s e = some s') :
    s'.push = s.push ∨ ∃ e', pushStep sns jsonify serverAPIKey s.push e' = some s'.push ∧
      (Considerate s e → Undisturbing s.push e') := by
  cases e with
  | app e =>
    simp only [serviceStep] at he
    split at he
    · cases he
    · obtain ⟨app, _, rfl⟩ := Option.map_eq_some_iff.mp he
      exact .inl rfl
  | start c =>
    simp only [serviceStep] at he
    split at he
    · obtain ⟨push, hpush, rfl⟩ := Option.map_eq_some_iff.mp he
      exact .inr ⟨_, hpush, fun _ => trivial⟩
    · cases he
  | refuse c io =>
    simp only [serviceStep] at he
    split at he
    · obtain ⟨app, _, rfl⟩ := Option.map_eq_some_iff.mp he
      exact .inl rfl
    · cases he
  | remote c =>
    obtain ⟨call, q, _, hpush, _⟩ := remote_cases he
    exact .inr ⟨_, hpush, id⟩

/-! ## One message for each push -/

/-- No call has failed at the service, and all work on one application. -/
structure Unharmed (A : Applications sns) (serverAPIKey : String) (s : ServiceState σ) : Prop where
  same : SameApplication A serverAPIKey s.push
  safe : Safe A s.push

theorem unharmed_init (A : Applications sns) : Unharmed A serverAPIKey (.init t₀ m) := by
  refine ⟨fun _ _ hcall => ?_, fun _ _ hcall => ?_⟩
  · cases hcall
  · cases hcall

theorem unharmed_step (A : Applications sns) (hjson : ∀ j, jsonify j ≠ none)
    (h : Unharmed A serverAPIKey s) (hquiet : Considerate s e)
    (he : serviceStep D jsonify serverAPIKey s e = some s') : Unharmed A serverAPIKey s' := by
  obtain heq | ⟨e', he', hundisturbing⟩ := push_cases_of_step he
  · exact ⟨by rw [heq]; exact h.same, by rw [heq]; exact h.safe⟩
  · exact ⟨sameApplication_of_step A hjson h.same he',
      (safe_step_iff A hjson h.same h.safe he').mpr (hundisturbing hquiet)⟩

/-- A call past the publication has its push sent, unless the service has thrown. -/
theorem Linked.pushed {args : Server.Arguments} {pc : Server.AuthenticatePc} (h : Linked D jsonify s)
    (hsafe : ∀ c call, s.push.calls c = some call → call.pc ≠ .threw)
    (hc : s.app.server.authenticates c = some ⟨args, pc⟩) (hsent : pc.hasSent = true) :
    ∃ p ∈ s.app.server.pushes, pc.putId = some p.requestId := by
  obtain ⟨call, hcall⟩ : ∃ call, s.push.calls c = call := ⟨_, rfl⟩
  have hlink := h.calls c
  rw [hc, hcall] at hlink
  cases hlink with
  | before _ hth => exact absurd hsent (by rw [hth _ rfl]; exact Bool.false_ne_true)
  | inside => cases hsent
  | published args call arn messageId hpc hpush => exact ⟨_, hpush, rfl⟩
  | after args p call hpc hput _ hpush => exact ⟨_, hpush (hsafe c call hcall), hput⟩

/-- The message of a push is among those accepted. -/
theorem message_of_push {p : Server.Push} {ms : List PublishRequest} {ps : List Server.Push}
    (h : List.Forall₂ (Carries D jsonify) ms ps) (hp : p ∈ ps) : ∃ r ∈ ms, Carries D jsonify r p := by
  induction h with
  | nil => cases hp
  | cons hcarries _ ih =>
    cases hp with
    | head => exact ⟨_, List.mem_cons_self, hcarries⟩
    | tail _ hp =>
      obtain ⟨r, hr, hcarries⟩ := ih hp
      exact ⟨r, List.mem_cons_of_mem _ hr, hcarries⟩

/-! ## Honest callers -/

/-- The events of the application are honest; those of `sendMessage` are anyway. -/
def HonestCallers (s : ServiceState σ) : ServiceEvent → Prop
  | .app e => Honest s.app e
  | _ => True

theorem honest_of_isSend {a : State} {e : Server.Event} (h : Server.isSend e = true) :
    Honest a (.server e) := by
  cases e with
  | send | sendReturn =>
    constructor
    · intro _ hid
      cases hid
    · intro _ hemail
      cases hemail
  | _ => cases h

theorem trusted_service_step (h : Trusted s.app) (hhonest : HonestCallers s e)
    (he : serviceStep D jsonify serverAPIKey s e = some s') : Trusted s'.app := by
  obtain ⟨e', rfl, he'⟩ | ⟨es, hes, hrun⟩ := app_cases he
  · exact trusted_step h hhonest he'
  · refine run_along (C := Honest) (fun _ _ _ => trusted_step) h ?_ hrun
    refine along_of_forall fun a e he => ?_
    obtain ⟨e, hmem, rfl⟩ := List.mem_map.mp he
    exact honest_of_isSend (hes e hmem)

theorem registered_of_service_run {es : List ServiceEvent}
    (hhonest : Along (serviceStep D jsonify serverAPIKey) HonestCallers (.init t₀ m) es)
    (h : run (serviceStep D jsonify serverAPIKey) (.init t₀ m) es = some s) :
    Trusted s.app ∧ Addressed (RegisteredFor (serviceStep D jsonify serverAPIKey)
      (fun s => s.app.devices) (.init t₀ m) es) s.app := by
  refine run_steps (P := fun s => Trusted s.app ∧ Addressed (RegisteredFor
    (serviceStep D jsonify serverAPIKey) (fun s => s.app.devices) (.init t₀ m) es) s.app) ?_ ?_ h
  · exact ⟨trusted_init t₀, addressed_init fun email regid hrow => .inl hrow⟩
  rintro pre e k k' hpre hk he ⟨htrusted, haddressed⟩
  refine ⟨trusted_service_step htrusted (hhonest.of_prefix hpre hk) he,
    addressed_service_step haddressed he ?_⟩
  rintro email regid ⟨⟨call, hcommits, hselects⟩, hrow⟩
  obtain rfl := selects_plain htrusted.plain hcommits hselects
  exact .inr ⟨pre, e, k, k', hpre, hk, he, hcommits, hrow⟩

/-! ## The results -/

variable {args : Server.Arguments} {pc : Server.AuthenticatePc} {id : String}

/-- Where no deletion falls between the creation and the publication of another push, the service has
accepted the message of every call that waits for its phone or has answered, to an endpoint of a `regid`
that in some state of the run was stored under an email that the call's is a pattern of. -/
theorem delivered_of_run (A : Applications sns) (hjson : ∀ j, jsonify j ≠ none)
    (hm : D.accepted m = []) {es : List ServiceEvent}
    (hquiet : Along (serviceStep D jsonify serverAPIKey) Considerate (.init t₀ m) es)
    (h : run (serviceStep D jsonify serverAPIKey) (.init t₀ m) es = some s)
    (hc : s.app.server.authenticates c = some ⟨args, pc⟩) (hsent : pc.hasSent = true)
    (hid : pc.putId = some id) :
    ∃ r ∈ D.accepted s.push.service, ∃ email regid, Carries D jsonify r ⟨regid, id, args.payload⟩ ∧
      Stored (serviceStep D jsonify serverAPIKey) (fun s => s.app.devices) (.init t₀ m) es email regid ∧
      LikePattern.like args.email email = true := by
  have hreach := Reachable.of_run h
  have hlinked := linked_of_reachable hm hreach
  have hunharmed : Unharmed A serverAPIKey s :=
    run_along (fun _ _ _ => unharmed_step A hjson) (unharmed_init A) hquiet h
  obtain ⟨p, hp, hput⟩ := hlinked.pushed (fun c call hcall => (hunharmed.safe c call hcall).1) hc hsent
  obtain rfl : id = p.requestId := Option.some.inj (hid.symm.trans hput)
  obtain ⟨hpayload, device, hregid, hstored, hlike⟩ :=
    issued_to (app_reachable hreach) (addressed_of_service_run h) hp hc hput
  obtain ⟨r, hr, hcarries⟩ := message_of_push hlinked.messages hp
  refine ⟨r, hr, device.email, device.regid, ?_, hstored, hlike⟩
  rw [← hregid, ← hpayload]
  exact hcarries

/-- On any service, where ids are known from pushes only and emails stand for themselves, a call answers
`authenticated = true` only after the service has accepted its message, to an endpoint of a `regid`
registered for its email. -/
theorem approved_over_service (hm : D.accepted m = []) {es : List ServiceEvent} {a timedout : Bool}
    {details : Value}
    (hhonest : Along (serviceStep D jsonify serverAPIKey) HonestCallers (.init t₀ m) es)
    (h : run (serviceStep D jsonify serverAPIKey) (.init t₀ m) es = some s)
    (hemail : PlainEmail args.email)
    (hc : s.app.server.authenticates c = some ⟨args, .answered id a timedout (some
      (Success.response none (some [("authenticated", .bool true), ("details", details)])))⟩) :
    ∃ r ∈ D.accepted s.push.service, ∃ regid, Carries D jsonify r ⟨regid, id, args.payload⟩ ∧
      RegisteredFor (serviceStep D jsonify serverAPIKey) (fun s => s.app.devices) (.init t₀ m) es
        args.email regid := by
  have hreach := Reachable.of_run h
  obtain ⟨htrusted, haddressed⟩ := registered_of_service_run hhonest h
  obtain ⟨⟨p, hp, rfl, hpayload, hregistered⟩, _⟩ :=
    approved_of_trusted (app_reachable hreach) haddressed htrusted hemail hc
  obtain ⟨r, hr, hcarries⟩ := message_of_push (linked_of_reachable hm hreach).messages hp
  refine ⟨r, hr, p.regid, ?_, hregistered⟩
  rw [← hpayload]
  exact hcarries

/-! ## A push by itself -/

theorem started_of_step {call : PushCall} (he : serviceStep D jsonify serverAPIKey s e = some s')
    (hcall : s'.push.calls c = some call) :
    e = .start c ∨ ∃ before, s.push.calls c = some before := by
  cases e with
  | app e =>
    simp only [serviceStep] at he
    split at he
    · cases he
    · obtain ⟨app, _, rfl⟩ := Option.map_eq_some_iff.mp he
      exact .inr ⟨call, hcall⟩
  | start d =>
    simp only [serviceStep] at he
    split at he
    · obtain ⟨push, hpush, rfl⟩ := Option.map_eq_some_iff.mp he
      obtain ⟨_, rfl⟩ := whenever_eq_some.mp hpush
      by_cases hdc : c = d
      · exact .inl (by rw [hdc])
      · exact .inr ⟨call, (Function.update_of_ne hdc _ _).symm.trans hcall⟩
    · cases he
  | refuse d io =>
    simp only [serviceStep] at he
    split at he
    · obtain ⟨app, _, rfl⟩ := Option.map_eq_some_iff.mp he
      exact .inr ⟨call, hcall⟩
    · cases he
  | remote d =>
    obtain ⟨before, q, hd, _, _, hcalls, _⟩ := remote_cases he
    by_cases hdc : c = d
    · exact .inr ⟨before, by rw [hdc]; exact hd⟩
    · rw [hcalls, Function.update_of_ne hdc] at hcall
      exact .inr ⟨call, hcall⟩

/-- Where one call alone pushes, nobody is disturbed. -/
theorem considerate_alone {es : List ServiceEvent} (halone : ∀ d, .start d ∈ es → d = c)
    (hcalls : ∀ d call, s.push.calls d = some call → d = c) :
    Along (serviceStep D jsonify serverAPIKey) Considerate s es := by
  induction es generalizing s with
  | nil => trivial
  | cons e es ih =>
    refine ⟨?_, fun s' he => ih (fun d hd => halone d (List.mem_cons_of_mem _ hd)) ?_⟩
    · cases e with
      | remote d =>
        intro call hd _ j other hj hother
        exact absurd ((hcalls j other hother).trans (hcalls d call hd).symm) hj
      | _ => trivial
    · intro d call hd
      obtain rfl | ⟨before, hbefore⟩ := started_of_step he hd
      · exact halone d List.mem_cons_self
      · exact hcalls d before hbefore

/-! ## A run -/

instance (s : ServiceState σ) : (e : ServiceEvent) → Decidable (HonestCallers s e)
  | .app e => inferInstanceAs (Decidable (Honest s.app e))
  | .start _ => .isTrue trivial
  | .refuse _ _ => .isTrue trivial
  | .remote _ => .isTrue trivial

abbrev mailStep := serviceStep mailAcceptance (fun j => some j.text) "key"

/-- The phone registers, and approves what comes over the service. -/
def servedApproval : List ServiceEvent :=
  (registeredApproval.take 16).map .app ++ .start 0 :: List.replicate 4 (.remote 0) ++
    (registeredApproval.drop 18).map .app

theorem servedApproval_runs :
    (run mailStep (.init (.empty 200) (∅, [])) servedApproval).isSome = true := by decide +kernel

def servedState : ServiceState (Finset String × List PublishRequest) :=
  (run mailStep (.init (.empty 200) (∅, [])) servedApproval).get servedApproval_runs

theorem servedState_run : run mailStep (.init (.empty 200) (∅, [])) servedApproval = some servedState :=
  (Option.some_get servedApproval_runs).symm

theorem servedState_answer : servedState.app.server.authenticates 0 = some
    ⟨⟨"user@example.com", "acme", 30, 1, "login", "10.0.0.1"⟩, .answered Server.firstId true false (some
      (Success.response none (some [("authenticated", .bool true), ("details", .str "phone")])))⟩ := by
  decide +kernel

theorem servedApproval_considerate :
    Along mailStep Considerate (.init (.empty 200) (∅, [])) servedApproval := by
  refine considerate_alone (c := 0) (fun d hd => ?_) fun _ _ hcall => by cases hcall
  simp only [servedApproval, List.mem_append, List.mem_cons, List.mem_map, List.mem_replicate] at hd
  obtain (⟨_, _, h⟩ | h | ⟨_, h⟩) | ⟨_, _, h⟩ := hd
  · cases h
  · exact ServiceEvent.start.inj h
  · cases h
  · cases h

theorem servedApproval_delivered : ∃ r ∈ mailAcceptance.accepted servedState.push.service,
    ∃ email regid, Carries mailAcceptance (fun j => some j.text) r ⟨regid, Server.firstId,
      Server.Arguments.payload ⟨"user@example.com", "acme", 30, 1, "login", "10.0.0.1"⟩⟩ ∧
    Stored mailStep (fun s => s.app.devices) (.init (.empty 200) (∅, [])) servedApproval email regid ∧
    LikePattern.like "user@example.com" email = true :=
  delivered_of_run mailApplications (fun _ => Option.some_ne_none _) rfl servedApproval_considerate
    servedState_run servedState_answer rfl rfl

theorem servedApproval_approved : ∃ r ∈ mailAcceptance.accepted servedState.push.service, ∃ regid,
    Carries mailAcceptance (fun j => some j.text) r ⟨regid, Server.firstId,
      Server.Arguments.payload ⟨"user@example.com", "acme", 30, 1, "login", "10.0.0.1"⟩⟩ ∧
    RegisteredFor mailStep (fun s => s.app.devices) (.init (.empty 200) (∅, [])) servedApproval
      "user@example.com" regid :=
  approved_over_service rfl (by decide +kernel) servedState_run (by decide +kernel) servedState_answer

end Auth8.Application
