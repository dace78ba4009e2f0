import Auth8.Application.System
import Auth8.Aws.Acceptance
import Auth8.Server.Sending

/-! # The application and the push service

`SNSMobilePush.sendMessage` as the remote calls it consists of, on the service that all calls share. The
thread of an `authenticate` call stays in the method while they run. What the service throws is caught
there, and the thread goes on to wait for the phone. -/
namespace Auth8.Application
open EventRuns Persistent Devices Aws
set_option autoImplicit false

variable {σ : Type}

structure ServiceState (σ : Type) where
  app : State
  push : PushState σ

inductive ServiceEvent where
  /-- any event but those of `sendMessage` -/
  | app (e : Event)
  /-- `sendMessage` has read its credentials, and calls `demoNotification` -/
  | start (c : ℕ)
  /-- the credentials cannot be read: an `IOException`, or another exception -/
  | refuse (c : ℕ) (io : Bool)
  /-- the next remote call of the push of the call `c` -/
  | remote (c : ℕ)

def ServiceState.init (t : DeviceTable) (service : σ) : ServiceState σ := ⟨.init t, .init service⟩

def isSendMessage : Event → Bool
  | .server e => Server.isSend e
  | _ => false

/-- What the thread does after a remote call, with the positions of its push before and after it. -/
def sendMessage (c : ℕ) (composed published : Bool) : DemoPc → DemoPc → List Server.Event
  | .publish _ _, .threw => [.send c published, .sendReturn c (if composed then .returned else .exception)]
  | .publish _ _, _ => [.send c published]
  | .deleteApplication _ _, _ => [.sendReturn c .returned]
  | _, .threw => [.send c false, .sendReturn c .returned]
  | _, _ => []

section
variable {sns : AmazonSNS σ} (D : Acceptance sns) (jsonify : Json → Option String)
variable (serverAPIKey : String)

def serviceStep (s : ServiceState σ) : ServiceEvent → Option (ServiceState σ)
  | .app e => if isSendMessage e then none else (step s.app e).map fun app => { s with app := app }
  | .start c =>
    match s.app.server.authenticates c with
    | some ⟨args, .send device id⟩ =>
      (pushStep sns jsonify serverAPIKey s.push (.send c device id args.payload)).map fun push =>
        { s with push := push }
    | _ => none
  | .refuse c io =>
    if s.push.calls c = none then
      (run step s.app [.server (.send c false),
        .server (.sendReturn c (if io then .ioException else .exception))]).map
          fun app => { s with app := app }
    else none
  | .remote c =>
    (s.push.calls c).bind fun call =>
      (pushStep sns jsonify serverAPIKey s.push (.run c)).bind fun push =>
        (push.calls c).bind fun next =>
          (run step s.app ((sendMessage c (call.isComposed jsonify)
            (decide (D.accepted push.service ≠ D.accepted s.push.service)) call.pc next.pc).map
              .server)).map fun app => ⟨app, push⟩

end

variable {sns : AmazonSNS σ} {D : Acceptance sns} {jsonify : Json → Option String}
variable {serverAPIKey : String} {s s' : ServiceState σ} {c : ℕ}

/-! ## The threads in `sendMessage` -/

def pushOf (call : PushCall) : Server.Push := ⟨call.device.regid, call.requestId, call.payload⟩

/-- Where the thread of a call is while its push is at a position, and what has been pushed by then. -/
inductive Link (D : Acceptance sns) (jsonify : Json → Option String) (pushes : List Server.Push) :
    Option Server.Authenticate → Option PushCall → Prop where
  | before (th : Option Server.Authenticate) (hth : ∀ a, th = some a → a.pc.hasSent = false) :
      Link D jsonify pushes th none
  | inside (args : Server.Arguments) (device : Device) (id : String) (pc : DemoPc)
      (hpc : pc.isOpen = true) (htoken : ∀ arn e, pc = .publish arn e → D.token e = device.regid) :
      Link D jsonify pushes (some ⟨args, .send device id⟩) (some ⟨device, id, args.payload, pc⟩)
  | published (args : Server.Arguments) (call : PushCall) (arn messageId : String)
      (hpc : call.pc = .deleteApplication arn messageId) (hpush : pushOf call ∈ pushes) :
      Link D jsonify pushes (some ⟨args, .sending call.requestId⟩) (some call)
  | after (args : Server.Arguments) (p : Server.AuthenticatePc) (call : PushCall)
      (hpc : call.pc.hasEnded = true) (hput : p.putId = some call.requestId)
      (hp : p.isSending = false) (hpush : call.pc ≠ .threw → pushOf call ∈ pushes)
      (hwaits : (∀ j, jsonify j ≠ none) → p.hasSent = true) :
      Link D jsonify pushes (some ⟨args, p⟩) (some call)

/-- The request publishes the push, to an endpoint of its `regid`. -/
structure Carries (D : Acceptance sns) (jsonify : Json → Option String) (r : PublishRequest)
    (p : Server.Push) : Prop where
  token : D.token r.targetArn = p.regid
  message : publish jsonify r.targetArn .GCM attributesMap p.requestId p.payload = some r

theorem carries_of_publish {device : Device} {id e : String} {payload : List (String × String)}
    {r : PublishRequest} (htoken : D.token e = device.regid)
    (hr : publish jsonify e .GCM attributesMap id payload = some r) :
    Carries D jsonify r ⟨device.regid, id, payload⟩ := by
  have htarget : r.targetArn = e := publish_target hr
  exact ⟨by rw [htarget]; exact htoken, by rw [htarget]; exact hr⟩

/-- Every thread is where its push is, and the messages accepted are the pushes, one for one. -/
structure Linked (D : Acceptance sns) (jsonify : Json → Option String) (s : ServiceState σ) : Prop where
  calls : ∀ c, Link D jsonify s.app.server.pushes (s.app.server.authenticates c) (s.push.calls c)
  messages : List.Forall₂ (Carries D jsonify) (D.accepted s.push.service) s.app.server.pushes

theorem linked_init (t : DeviceTable) {m : σ} (hm : D.accepted m = []) :
    Linked D jsonify (.init t m) := by
  refine ⟨fun c => .before _ fun a ha => ?_, ?_⟩
  · cases ha
  · have hnil : D.accepted (ServiceState.init t m).push.service = [] := hm
    rw [hnil]
    exact .nil

theorem Link.mono {ps qs : List Server.Push} {th : Option Server.Authenticate} {call : Option PushCall}
    (h : Link D jsonify ps th call) (hsub : ∀ p ∈ ps, p ∈ qs) : Link D jsonify qs th call := by
  cases h with
  | before th hth => exact .before _ hth
  | inside args device id pc hpc htoken => exact .inside args device id pc hpc htoken
  | published args call arn messageId hpc hpush => exact .published args call arn messageId hpc (hsub _ hpush)
  | after args p call hpc hput hp hpush hwaits =>
    exact .after args p call hpc hput hp (fun hthrew => hsub _ (hpush hthrew)) hwaits

/-- An event of the server other than those of `sendMessage` does not touch a thread in it. -/
theorem Link.apart {ps : List Server.Push} {th th' : Option Server.Authenticate}
    {call : Option PushCall} (h : Link D jsonify ps th call) (ha : Server.Apart th th') :
    Link D jsonify ps th' call := by
  cases ha with
  | same => exact h
  | arrives args =>
    cases h with
    | before _ _ =>
      refine .before _ fun a ha => ?_
      cases ha
      rfl
  | moves args p q hp hsent hput =>
    cases h with
    | before _ hth =>
      refine .before _ fun a ha => ?_
      cases ha
      exact hsent.trans (hth ⟨args, p⟩ rfl)
    | inside | published => cases hp
    | after _ _ call hpc hid _ hpush hwaits =>
      obtain ⟨hid', hq⟩ := hput _ hid
      exact .after args q call hpc hid' hq hpush fun hjson => hsent.trans (hwaits hjson)

/-! ## The two events of `sendMessage` -/

/-- Events of the call `c` alone, which leave it at `th` and the pushes `ps`. -/
structure Leaves (app app' : State) (c : ℕ) (th : Server.Authenticate) (ps : List Server.Push) :
    Prop where
  calls : app'.server.authenticates = Function.update app.server.authenticates c (some th)
  pushes : app'.server.pushes = ps

variable {app : State} {args : Server.Arguments} {id : String}

theorem step_of_server (a : State) (e : Server.Event) {server : Server.State} (he : isLookup e = false)
    (h : Server.step a.server e = some server) :
    step a (.server e) = some { a with server := server } := by
  rw [step, he, h]
  rfl

theorem step_send {device : Device} (hc : app.server.authenticates c = some ⟨args, .send device id⟩)
    (published : Bool) : ∃ app', step app (.server (.send c published)) = some app' ∧
      Leaves app app' c ⟨args, .sending id⟩ (if published then
        ⟨device.regid, id, args.payload⟩ :: app.server.pushes else app.server.pushes) := by
  have hstep := step_of_server app (.send c published) rfl (by rw [Server.step, hc])
  exact ⟨_, hstep, rfl, rfl⟩

theorem step_sendReturn (hc : app.server.authenticates c = some ⟨args, .sending id⟩)
    (exit : Server.SendExit) : ∃ app' q, step app (.server (.sendReturn c exit)) = some app' ∧
      Leaves app app' c ⟨args, q⟩ app.server.pushes ∧ q.putId = some id ∧ q.isSending = false ∧
      (q.hasSent = true ↔ exit = .returned) := by
  have hstep := step_of_server app (.sendReturn c exit) rfl (by rw [Server.step, hc])
  refine ⟨_, _, hstep, ⟨rfl, rfl⟩, ?_⟩
  cases exit with
  | returned => exact ⟨rfl, rfl, iff_of_true rfl rfl⟩
  | ioException | exception =>
    exact ⟨rfl, rfl, iff_of_false Bool.false_ne_true fun h => by cases h⟩

/-- The two events together. -/
theorem run_sendMessage {device : Device}
    (hc : app.server.authenticates c = some ⟨args, .send device id⟩) (published : Bool)
    (exit : Server.SendExit) : ∃ app' q,
      run step app [.server (.send c published), .server (.sendReturn c exit)] = some app' ∧
      Leaves app app' c ⟨args, q⟩ (if published then
        ⟨device.regid, id, args.payload⟩ :: app.server.pushes else app.server.pushes) ∧
      q.putId = some id ∧ q.isSending = false ∧ (q.hasSent = true ↔ exit = .returned) := by
  obtain ⟨m, hsend, hm⟩ := step_send hc published
  have hmc : m.server.authenticates c = some ⟨args, .sending id⟩ := by
    rw [hm.calls, Function.update_self]
  obtain ⟨app', q, hreturn, happ, hq⟩ := step_sendReturn hmc exit
  refine ⟨app', q, ?_, ⟨?_, happ.pushes.trans hm.pushes⟩, hq⟩
  · exact run_cons_eq_some.mpr ⟨m, hsend, by rw [run_single, hreturn]⟩
  · rw [happ.calls, hm.calls, Function.update_idem]

/-! ## A remote call -/

/-- What is added to the messages is added to the pushes. -/
def Delivers (D : Acceptance sns) (jsonify : Json → Option String) (ms ms' : List PublishRequest)
    (ps ps' : List Server.Push) : Prop :=
  ms' = ms ∧ ps' = ps ∨ ∃ r p, Carries D jsonify r p ∧ ms' = r :: ms ∧ ps' = p :: ps

theorem Delivers.forall₂ {ms ms' : List PublishRequest} {ps ps' : List Server.Push}
    (h : Delivers D jsonify ms ms' ps ps') (hms : List.Forall₂ (Carries D jsonify) ms ps) :
    List.Forall₂ (Carries D jsonify) ms' ps' := by
  obtain ⟨rfl, rfl⟩ | ⟨r, p, hcarries, rfl, rfl⟩ := h
  · exact hms
  · exact .cons hcarries hms

theorem Delivers.sub {ms ms' : List PublishRequest} {ps ps' : List Server.Push}
    (h : Delivers D jsonify ms ms' ps ps') : ∀ p ∈ ps, p ∈ ps' := by
  obtain ⟨_, rfl⟩ | ⟨_, _, _, _, rfl⟩ := h
  · exact fun _ hp => hp
  · exact fun _ hp => List.mem_cons_of_mem _ hp

/-- The end of a remote call with what the thread does next. -/
def Continues (D : Acceptance sns) (jsonify : Json → Option String) (app : State) (c : ℕ)
    (ms ms' : List PublishRequest) (events : List Server.Event) (call : PushCall) : Prop :=
  ∃ app' th, run step app (events.map .server) = some app' ∧
    Leaves app app' c th app'.server.pushes ∧ Link D jsonify app'.server.pushes (some th) (some call) ∧
    Delivers D jsonify ms ms' app.server.pushes app'.server.pushes

variable {device : Device} {pc : DemoPc} {ms ms' : List PublishRequest}

theorem continues_inside (hc : app.server.authenticates c = some ⟨args, .send device id⟩)
    (hpc : pc.isOpen = true) (htoken : ∀ arn e, pc = .publish arn e → D.token e = device.regid)
    (hsame : ms' = ms) : Continues D jsonify app c ms ms' [] ⟨device, id, args.payload, pc⟩ := by
  refine ⟨app, _, rfl, ⟨?_, rfl⟩, .inside args device id pc hpc htoken, .inl ⟨hsame, rfl⟩⟩
  rw [← hc, Function.update_eq_self]

/-- The message is accepted, and the answer of the service arrives. -/
theorem continues_published {r : PublishRequest} {arn e messageId : String}
    (hc : app.server.authenticates c = some ⟨args, .send device id⟩)
    (htoken : D.token e = device.regid)
    (hr : publish jsonify e .GCM attributesMap id args.payload = some r) (hnew : ms' = r :: ms) :
    Continues D jsonify app c ms ms' [.send c true]
      ⟨device, id, args.payload, .deleteApplication arn messageId⟩ := by
  obtain ⟨app', hstep, hleaves⟩ := step_send hc true
  have hpushes : app'.server.pushes = ⟨device.regid, id, args.payload⟩ :: app.server.pushes :=
    hleaves.pushes
  refine ⟨app', _, by rw [List.map_singleton, run_single, hstep],
    ⟨hleaves.calls, rfl⟩, ?_, .inr ⟨r, _, carries_of_publish htoken hr, hnew, hpushes⟩⟩
  refine .published args ⟨device, id, args.payload, _⟩ arn messageId rfl ?_
  rw [hpushes]
  exact List.mem_cons_self

/-- A remote call throws, and the thread leaves `sendMessage`. -/
theorem continues_threw (hc : app.server.authenticates c = some ⟨args, .send device id⟩)
    (published : Bool) {exit : Server.SendExit} (hexit : (∀ j, jsonify j ≠ none) → exit = .returned)
    (hdelivers : Delivers D jsonify ms ms' app.server.pushes (if published then
      ⟨device.regid, id, args.payload⟩ :: app.server.pushes else app.server.pushes)) :
    Continues D jsonify app c ms ms' [.send c published, .sendReturn c exit]
      ⟨device, id, args.payload, .threw⟩ := by
  obtain ⟨app', q, hrun, hleaves, hput, hq, hwaits⟩ := run_sendMessage hc published exit
  refine ⟨app', _, hrun, ⟨hleaves.calls, rfl⟩, ?_, hleaves.pushes ▸ hdelivers⟩
  exact .after args q _ rfl hput hq (fun hthrew => absurd rfl hthrew)
    fun hjson => hwaits.mpr (hexit hjson)

theorem continues_deleted {call : PushCall} {q : DemoPc}
    (hc : app.server.authenticates c = some ⟨args, .sending call.requestId⟩)
    (hpush : pushOf call ∈ app.server.pushes) (hq : q.hasEnded = true) (hsame : ms' = ms) :
    Continues D jsonify app c ms ms' [.sendReturn c .returned] { call with pc := q } := by
  obtain ⟨app', p, hstep, hleaves, hput, hp, hwaits⟩ := step_sendReturn hc .returned
  refine ⟨app', _, by rw [List.map_singleton, run_single, hstep],
    ⟨hleaves.calls, rfl⟩, ?_, .inl ⟨hsame, hleaves.pushes⟩⟩
  refine .after args p _ hq hput hp (fun _ => ?_) fun _ => hwaits.mpr rfl
  rw [hleaves.pushes]
  exact hpush

/-- Whatever the service does, the thread can go on, and is linked to its push again. -/
theorem remote_continues {call : PushCall} {q : DemoPc} {m m' : σ}
    (hlink : Link D jsonify app.server.pushes (app.server.authenticates c) (some call))
    (ha : Accepts D jsonify call m m' call.pc q) :
    Continues D jsonify app c (D.accepted m) (D.accepted m')
      (sendMessage c (call.isComposed jsonify) (decide (D.accepted m' ≠ D.accepted m)) call.pc q)
      { call with pc := q } := by
  obtain ⟨th, hth⟩ : ∃ th, app.server.authenticates c = th := ⟨_, rfl⟩
  rw [hth] at hlink
  have hnew : ∀ r, D.accepted m' = r :: D.accepted m →
      decide (D.accepted m' ≠ D.accepted m) = true := by
    intro r hr
    rw [hr]
    exact decide_eq_true (List.cons_ne_self r _)
  cases hlink with
  | inside args device id pc hpc htoken =>
    cases ha with
    | application arn hsame => exact continues_inside hth rfl (fun _ _ h => by cases h) hsame
    | endpoint arn e hregid hsame =>
      refine continues_inside hth rfl (fun _ _ h => ?_) hsame
      cases h
      exact hregid
    | publish arn e messageId r hr hm =>
      rw [hnew r hm]
      exact continues_published hth (htoken arn e rfl) hr hm
    | applicationThrew hsame | endpointThrew arn hsame =>
      exact continues_threw hth false (fun _ => rfl) (.inl ⟨hsame, rfl⟩)
    | publishThrew arn e hsame =>
      rw [hsame, decide_eq_false (not_not.mpr rfl)]
      exact continues_threw hth false (fun hjson => if_pos (composed_of_jsonify hjson _))
        (.inl ⟨rfl, rfl⟩)
    | publishLost arn e r hr hm =>
      rw [hnew r hm]
      exact continues_threw hth true (fun hjson => if_pos (composed_of_jsonify hjson _))
        (.inr ⟨r, _, carries_of_publish (htoken arn e rfl) hr, hm, rfl⟩)
    | delete => cases hpc
  | published args call arn messageId hpc hpush =>
    rw [hpc] at ha ⊢
    cases ha with
    | delete arn messageId q hq hsame => exact continues_deleted hth hpush hq hsame
  | after args p call hpc =>
    generalize call.pc = pc at hpc ha
    cases ha <;> cases hpc

/-! ## One event -/

variable {e : ServiceEvent}

theorem app_others {e : Event} {app' : State} (h : step app e = some app')
    (he : isSendMessage e = false) : Server.Others app.server app'.server := by
  cases e with
  | device order e =>
    obtain ⟨devices, _, rfl⟩ := Option.map_eq_some_iff.mp h
    exact Server.others_of_eq rfl rfl
  | query c order throws =>
    obtain ⟨th, _, h⟩ := Option.bind_eq_some_iff.mp h
    obtain ⟨server, hserver, rfl⟩ := Option.map_eq_some_iff.mp h
    exact Server.step_others hserver rfl
  | server e =>
    simp only [step] at h
    split at h
    · cases h
    · obtain ⟨server, hserver, rfl⟩ := Option.map_eq_some_iff.mp h
      exact Server.step_others hserver he

/-- The next remote call of a push, and what its thread does then. -/
theorem remote_cases (he : serviceStep D jsonify serverAPIKey s (.remote c) = some s') :
    ∃ call q, s.push.calls c = some call ∧
      pushStep sns jsonify serverAPIKey s.push (.run c) = some s'.push ∧
      Accepts D jsonify call s.push.service s'.push.service call.pc q ∧
      s'.push.calls = Function.update s.push.calls c (some { call with pc := q }) ∧
      run step s.app ((sendMessage c (call.isComposed jsonify)
        (decide (D.accepted s'.push.service ≠ D.accepted s.push.service)) call.pc q).map .server) =
          some s'.app := by
  obtain ⟨call, hcall, he⟩ := Option.bind_eq_some_iff.mp he
  obtain ⟨push, hpush, he⟩ := Option.bind_eq_some_iff.mp he
  obtain ⟨next, hnext, he⟩ := Option.bind_eq_some_iff.mp he
  obtain ⟨app, happ, rfl⟩ := Option.map_eq_some_iff.mp he
  have hrun := hpush
  obtain ⟨call', hcall', hpush⟩ := Option.bind_eq_some_iff.mp hpush
  obtain rfl : call = call' := Option.some.inj (hcall.symm.trans hcall')
  obtain ⟨⟨q, m⟩, hq, rfl⟩ := Option.map_eq_some_iff.mp hpush
  obtain rfl := Option.some.inj ((Function.update_self c _ s.push.calls).symm.trans hnext)
  exact ⟨call, q, hcall, hrun, accepts_of_step D hq, rfl, happ⟩

/-- Threads that go on with nothing that concerns their pushes, and pushes that none of them notices. -/
theorem Linked.others (h : Linked D jsonify s) (ha : Server.Others s.app.server app.server) :
    Linked D jsonify { s with app := app } := by
  refine ⟨fun c => ?_, ?_⟩
  · have hlink := (h.calls c).apart (ha.calls c)
    rwa [← ha.pushes] at hlink
  · have hmessages := h.messages
    rwa [← ha.pushes] at hmessages

theorem Linked.remote {call : PushCall} {q : DemoPc} (h : Linked D jsonify s)
    (hcall : s.push.calls c = some call)
    (ha : Accepts D jsonify call s.push.service s'.push.service call.pc q)
    (hcalls : s'.push.calls = Function.update s.push.calls c (some { call with pc := q }))
    (hrun : run step s.app ((sendMessage c (call.isComposed jsonify)
      (decide (D.accepted s'.push.service ≠ D.accepted s.push.service)) call.pc q).map .server) =
        some s'.app) : Linked D jsonify s' := by
  have hlink := h.calls c
  rw [hcall] at hlink
  obtain ⟨app, th, happ, hleaves, hself, hdelivers⟩ := remote_continues hlink ha
  obtain rfl : app = s'.app := Option.some.inj (happ.symm.trans hrun)
  refine ⟨fun d => ?_, hdelivers.forall₂ h.messages⟩
  rw [hleaves.calls, hcalls]
  by_cases hd : d = c
  · rw [hd, Function.update_self, Function.update_self]
    exact hself
  · rw [Function.update_of_ne hd, Function.update_of_ne hd]
    exact (h.calls d).mono hdelivers.sub

theorem Linked.start {device : Device} (h : Linked D jsonify s)
    (hc : s.app.server.authenticates c = some ⟨args, .send device id⟩) (happ : s'.app = s.app)
    (hservice : s'.push.service = s.push.service)
    (hcalls : s'.push.calls = Function.update s.push.calls c
      (some ⟨device, id, args.payload, .createApplication⟩)) : Linked D jsonify s' := by
  refine ⟨fun d => ?_, by rw [happ, hservice]; exact h.messages⟩
  rw [happ, hcalls]
  by_cases hd : d = c
  · rw [hd, hc, Function.update_self]
    exact .inside args device id _ rfl fun _ _ hpc => by cases hpc
  · rw [Function.update_of_ne hd]
    exact h.calls d

theorem Linked.refuse {exit : Server.SendExit} (h : Linked D jsonify s)
    (hnone : s.push.calls c = none) (hexit : exit ≠ .returned)
    (hrun : run step s.app [.server (.send c false), .server (.sendReturn c exit)] = some app) :
    Linked D jsonify { s with app := app } := by
  obtain ⟨m, hm, _⟩ := run_cons_eq_some.mp hrun
  obtain ⟨args, device, id, hc⟩ : ∃ args device id,
      s.app.server.authenticates c = some ⟨args, .send device id⟩ := by
    obtain ⟨server, hserver, _⟩ := Option.map_eq_some_iff.mp hm
    simp only [Server.step] at hserver
    split at hserver
    · next args device id hc => exact ⟨args, device, id, hc⟩
    · cases hserver
  obtain ⟨app', q, happ, hleaves, _, _, hq⟩ := run_sendMessage hc false exit
  obtain rfl : app' = app := Option.some.inj (happ.symm.trans hrun)
  have hpushes : app'.server.pushes = s.app.server.pushes := hleaves.pushes
  refine ⟨fun d => ?_, by rw [hpushes]; exact h.messages⟩
  rw [hleaves.calls, hpushes]
  by_cases hd : d = c
  · rw [hd, Function.update_self, hnone]
    refine .before _ fun a ha => ?_
    cases ha
    exact Bool.eq_false_iff.mpr (mt hq.mp hexit)
  · rw [Function.update_of_ne hd]
    exact h.calls d

theorem linked_step (h : Linked D jsonify s) (he : serviceStep D jsonify serverAPIKey s e = some s') :
    Linked D jsonify s' := by
  cases e with
  | app e =>
    simp only [serviceStep] at he
    split at he
    · cases he
    · next hsend =>
      obtain ⟨app, happ, rfl⟩ := Option.map_eq_some_iff.mp he
      exact h.others (app_others happ (by simpa using hsend))
  | start c =>
    simp only [serviceStep] at he
    split at he
    · next args device id hc =>
      obtain ⟨push, hpush, rfl⟩ := Option.map_eq_some_iff.mp he
      obtain ⟨_, rfl⟩ := whenever_eq_some.mp hpush
      exact h.start hc rfl rfl rfl
    · cases he
  | refuse c io =>
    simp only [serviceStep] at he
    split at he
    · next hnone =>
      obtain ⟨app, happ, rfl⟩ := Option.map_eq_some_iff.mp he
      exact h.refuse hnone (by cases io <;> decide) happ
    · cases he
  | remote c =>
    obtain ⟨call, q, hcall, _, ha, hcalls, hrun⟩ := remote_cases he
    exact h.remote hcall ha hcalls hrun

theorem linked_of_reachable {t : DeviceTable} {m : σ} (hm : D.accepted m = [])
    (h : Reachable (serviceStep D jsonify serverAPIKey) (.init t m) s) : Linked D jsonify s :=
  h.induct (linked_init t hm) fun _ _ _ _ hs he => linked_step hs he

end Auth8.Application
