import Auth8.Server.Registry

/-! # What is pushed

A call holds the device its query has found until it sends its push, which carries the arguments of the call
and its id. No id is pushed twice. -/
namespace Auth8.Server
open EventRuns Persistent Jaxrs Request
set_option autoImplicit false

/-- The device a call has found and has not sent to yet. -/
def AuthenticatePc.device : AuthenticatePc → Option Device
  | .getInstance device _ | .construct device _ | .pause device _ | .startCountdown device _
  | .generate device _ | .put device _ _ | .send device _ => some device
  | _ => none

variable {s s' : State} {c : ℕ} {args : Arguments} {p q : AuthenticatePc} {e : Event}

/-- The event is the sending of a push, which goes out. -/
def Sends (s s' : State) : Prop :=
  ∃ c args device id, s.authenticates c = some ⟨args, .send device id⟩ ∧
    s'.authenticates = Function.update s.authenticates c (some ⟨args, .sending id⟩) ∧
    s'.pushes = ⟨device.regid, id, args.payload⟩ :: s.pushes

/-- What an event does to the devices held and to the pushes. -/
structure Holds (s s' : State) (e : Event) : Prop where
  args : ∀ c th, s.authenticates c = some th → ∃ th', s'.authenticates c = some th' ∧ th'.args = th.args
  device : ∀ c th device, s'.authenticates c = some th → th.pc.device = some device →
    (∃ p, s.authenticates c = some ⟨th.args, p⟩ ∧ p.device = some device) ∨
      e = .lookup c (.found device) ∧ s.authenticates c = some ⟨th.args, .lookup⟩
  send : ∀ c args device id, s'.authenticates c = some ⟨args, .send device id⟩ →
    s.authenticates c = some ⟨args, .send device id⟩ ∨
      ∃ ls, s.authenticates c = some ⟨args, .put device ls id⟩
  pushes : s'.pushes = s.pushes ∨ Sends s s'

/-- An event that is none of a call's. -/
theorem holds_of_eq (ha : s'.authenticates = s.authenticates) (hp : s'.pushes = s.pushes) :
    Holds s s' e := by
  refine ⟨fun c th hc => ⟨th, by rw [ha]; exact hc, rfl⟩, fun c th device hc hd => ?_,
    fun c args device id hc => ?_, .inl hp⟩
  · rw [ha] at hc
    exact .inl ⟨th.pc, hc, hd⟩
  · rw [ha] at hc
    exact .inl hc

/-- What the device held after an event of the call says of the position before it. -/
def Held (c : ℕ) (e : Event) (p q : AuthenticatePc) : Prop :=
  (∀ device, q.device = some device →
    p.device = some device ∨ e = .lookup c (.found device) ∧ p = .lookup) ∧
  ∀ device id, q = .send device id → ∃ ls, p = .put device ls id

/-- An event of the call `c` that leaves it with the device it had, or with none. -/
theorem holds_of_move (hc : s.authenticates c = some ⟨args, p⟩)
    (ha : s'.authenticates = Function.update s.authenticates c (some ⟨args, q⟩)) (hq : Held c e p q)
    (hp : s'.pushes = s.pushes ∨ Sends s s') : Holds s s' e := by
  have hself : s'.authenticates c = some ⟨args, q⟩ := by rw [ha, Function.update_self]
  have hother : ∀ d, d ≠ c → s'.authenticates d = s.authenticates d := by
    intro d hdc
    rw [ha, Function.update_of_ne hdc]
  refine ⟨fun d th hd => ?_, fun d th device hd hdev => ?_, fun d args' device id hd => ?_, hp⟩
  · by_cases hdc : d = c
    · subst hdc
      rw [hc] at hd
      cases hd
      exact ⟨⟨args, q⟩, hself, rfl⟩
    · exact ⟨th, (hother d hdc).trans hd, rfl⟩
  · by_cases hdc : d = c
    · subst hdc
      rw [hself] at hd
      cases hd
      cases hq.1 device hdev with
      | inl hold => exact .inl ⟨p, hc, hold⟩
      | inr hfound =>
        obtain ⟨he, rfl⟩ := hfound
        exact .inr ⟨he, hc⟩
    · exact .inl ⟨th.pc, (hother d hdc).symm.trans hd, hdev⟩
  · by_cases hdc : d = c
    · subst hdc
      rw [hself] at hd
      cases hd
      obtain ⟨ls, rfl⟩ := hq.2 device id rfl
      exact .inr ⟨ls, hc⟩
    · exact .inl ((hother d hdc).symm.trans hd)

/-! ## One event -/

/-- A position that is not before the sending of a push. -/
theorem held_of_none (hq : q.device = none) : Held c e p q := by
  refine ⟨fun device hd => ?_, fun device id hd => ?_⟩
  · rw [hq] at hd
    cases hd
  · rw [hd] at hq
    cases hq

theorem held_of_eq (hq : q.device = p.device) (hsend : ∀ device id, q ≠ .send device id) :
    Held c e p q :=
  ⟨fun _ hd => .inl (hq ▸ hd), fun device id hd => absurd hd (hsend device id)⟩

theorem held_afterGetInstance (device : Device) (p : GetInstancePc) (x : GetInstancePc ⊕ Option ℕ) :
    Held c e (.getInstance device p) (.afterGetInstance device x) := by
  cases x with
  | inl p => exact held_of_eq rfl fun _ _ hd => by cases hd
  | inr ls => exact held_of_eq rfl fun _ _ hd => by cases hd

theorem stepAuthenticate_holds (hc : s.authenticates c = some ⟨args, p⟩)
    (h : stepAuthenticate s c args p = some s') : Holds s s' e := by
  cases p with
  | getInstance device p =>
    obtain ⟨⟨g, x⟩, _, rfl⟩ := Option.map_eq_some_iff.mp h
    exact holds_of_move hc rfl (held_afterGetInstance device p x) (.inl rfl)
  | put device ls id =>
    cases ls with
    | none =>
      cases h
      exact holds_of_move hc rfl (held_of_none rfl) (.inl rfl)
    | some ls =>
      cases h
      refine holds_of_move hc rfl ⟨fun d hd => .inl hd, fun d i hd => ?_⟩ (.inl rfl)
      cases hd
      exact ⟨some ls, rfl⟩
  | wait id =>
    cases h
    refine holds_of_move hc rfl (held_of_none ?_) (.inl rfl)
    split <;> rfl
  | construct device ls | pause device ls | startCountdown device ls =>
    cases h
    exact holds_of_move hc rfl (held_of_eq rfl fun _ _ hd => by cases hd) (.inl rfl)
  | readAuthenticated id | readTimedout id a | respond id a t =>
    cases h
    exact holds_of_move hc rfl (held_of_none rfl) (.inl rfl)
  | _ => cases h

/-- A statement of a `wake` call. -/
theorem stepWake_calls {w : ℕ} {auth : Bool} {requestId : String} {p : WakePc}
    (h : stepWake s w auth requestId p = some s') :
    s'.authenticates = s.authenticates ∧ s'.pushes = s.pushes := by
  cases p with
  | getInstance p =>
    obtain ⟨⟨g, x⟩, _, rfl⟩ := Option.map_eq_some_iff.mp h
    exact ⟨rfl, rfl⟩
  | get ls =>
    simp only [stepWake] at h
    split at h <;> cases h <;> exact ⟨rfl, rfl⟩
  | resume a p => cases p <;> cases h <;> exact ⟨rfl, rfl⟩
  | _ => cases h

/-- A statement of a countdown thread. -/
theorem stepCountdown_calls {p : CountdownPc} (h : stepCountdown s c p = some s') :
    s'.authenticates = s.authenticates ∧ s'.pushes = s.pushes := by
  cases p with
  | notStarted => cases h
  | loop i =>
    cases h
    exact ⟨rfl, rfl⟩
  | resume p =>
    cases p <;> cases h
    exact ⟨rfl, rfl⟩

/-- A call that has just arrived holds no device. -/
theorem arrival_holds (hc : s.authenticates c = none) :
    Holds s (s.setAuthenticate c args .lookup) e := by
  have hself : (s.setAuthenticate c args .lookup).authenticates c = some ⟨args, .lookup⟩ :=
    Function.update_self ..
  have hother : ∀ d, d ≠ c → (s.setAuthenticate c args .lookup).authenticates d = s.authenticates d :=
    fun d hdc => Function.update_of_ne hdc _ _
  refine ⟨fun d th hd => ⟨th, ?_, rfl⟩, fun d th device hd hdev => .inl ⟨th.pc, ?_, hdev⟩,
    fun d args' device id hd => .inl ?_, .inl rfl⟩
  · rw [hother d (by rintro rfl; rw [hc] at hd; cases hd)]
    exact hd
  · rw [← hother d (by rintro rfl; rw [hself] at hd; cases hd; cases hdev)]
    exact hd
  · rw [← hother d (by rintro rfl; rw [hself] at hd; cases hd)]
    exact hd

theorem step_holds (h : step s e = some s') : Holds s s' e := by
  cases e with
  | authenticate c args =>
    obtain ⟨hc, rfl⟩ := whenever_eq_some.mp h
    exact arrival_holds hc
  | lookup c result =>
    simp only [step] at h
    split at h
    · next args hc =>
      cases h
      refine holds_of_move hc rfl ?_ (.inl rfl)
      cases result with
      | found device =>
        refine ⟨fun d hd => .inr ?_, fun d i hd => by cases hd⟩
        cases hd
        exact ⟨rfl, rfl⟩
      | empty => exact held_of_none rfl
      | threw => exact held_of_none rfl
    · cases h
  | generate c uuid =>
    simp only [step] at h
    split at h
    · next args device ls hc =>
      obtain ⟨_, rfl⟩ := whenever_eq_some.mp h
      exact holds_of_move hc rfl (held_of_eq rfl fun _ _ hd => by cases hd) (.inl rfl)
    · cases h
  | send c published =>
    simp only [step] at h
    split at h
    · next args device id hc =>
      cases h
      refine holds_of_move hc rfl (held_of_none rfl) ?_
      cases published with
      | false => exact .inl rfl
      | true => exact .inr ⟨c, args, device, id, hc, rfl, rfl⟩
    · cases h
  | sendReturn c exit =>
    simp only [step] at h
    split at h
    · next args id hc =>
      cases h
      refine holds_of_move hc rfl (held_of_none ?_) (.inl rfl)
      cases exit <;> rfl
    · cases h
  | run c =>
    obtain ⟨⟨args, p⟩, hc, h⟩ := Option.bind_eq_some_iff.mp h
    exact stepAuthenticate_holds hc h
  | wake w auth requestId =>
    obtain ⟨_, rfl⟩ := whenever_eq_some.mp h
    exact holds_of_eq rfl rfl
  | runWake w =>
    obtain ⟨th, _, h⟩ := Option.bind_eq_some_iff.mp h
    exact holds_of_eq (stepWake_calls h).1 (stepWake_calls h).2
  | tick c => exact holds_of_eq (stepCountdown_calls h).1 (stepCountdown_calls h).2

theorem Holds.sent (h : Holds s s' e) {m : Push} (hm : m ∈ s.pushes) : m ∈ s'.pushes := by
  cases h.pushes with
  | inl heq =>
    rw [heq]
    exact hm
  | inr hsends =>
    obtain ⟨c, args, device, id, _, _, hp⟩ := hsends
    rw [hp]
    exact List.mem_cons_of_mem _ hm

/-! ## No push twice -/

/-- The ids of the pushes are distinct, and none of them is that of a push still to be sent. -/
structure SentOnce (s : State) : Prop where
  nodup : (s.pushes.map Push.requestId).Nodup
  unsent : ∀ c args device id, s.authenticates c = some ⟨args, .send device id⟩ →
    ∀ m ∈ s.pushes, m.requestId ≠ id

theorem sentOnce_step (hs : Inv s) (hs' : Inv s') (h : SentOnce s) (he : step s e = some s') :
    SentOnce s' := by
  have hholds := step_holds he
  -- a call about to push an id that is among the pushes was about to push it before
  have hbefore : ∀ c args device id, s'.authenticates c = some ⟨args, .send device id⟩ →
      ∀ m ∈ s.pushes, m.requestId ≠ id := by
    intro c args device id hc m hm hid
    cases hholds.send c args device id hc with
    | inl hold => exact h.unsent c args device id hold m hm hid
    | inr hput =>
      obtain ⟨ls, hput⟩ := hput
      obtain ⟨d, hd⟩ := hs.pushed m hm
      have hdrawn : s.idOf c = some m.requestId := by
        rw [State.idOf, hput, hid]
        rfl
      obtain ⟨th, hth, hthput⟩ := Option.bind_eq_some_iff.mp hd
      have hdid : s.idOf d = some m.requestId :=
        Option.bind_eq_some_iff.mpr ⟨th, hth, AuthenticatePc.id_of_putId hthput⟩
      obtain rfl := hs.distinct d c _ hdid hdrawn
      rw [hput] at hth
      cases hth
      cases hthput
  cases hholds.pushes with
  | inl heq => exact ⟨by rw [heq]; exact h.nodup, by rw [heq]; exact hbefore⟩
  | inr hsends =>
    obtain ⟨c, args, device, id, hc, hc', hp⟩ := hsends
    refine ⟨?_, fun d args' device' id' hd m hm => ?_⟩
    · rw [hp, List.map_cons, List.nodup_cons]
      refine ⟨fun hmem => ?_, h.nodup⟩
      obtain ⟨m, hm, hid⟩ := List.mem_map.mp hmem
      exact h.unsent c args device id hc m hm hid
    · rw [hp, List.mem_cons] at hm
      cases hm with
      | inr hold => exact hbefore d args' device' id' hd m hold
      | inl hnew =>
        rintro rfl
        subst hnew
        have hcid : s'.idOf c = some id := by
          rw [State.idOf, hc', Function.update_self]
          rfl
        have hdid : s'.idOf d = some id := by
          rw [State.idOf, hd]
          rfl
        obtain rfl := hs'.distinct d c id hdid hcid
        rw [hc', Function.update_self] at hd
        cases hd

theorem sentOnce_init : SentOnce .init := by
  refine ⟨List.nodup_nil, fun c args device id hc => ?_⟩
  cases hc

theorem sentOnce_of_reachable (h : Reachable step .init s) : SentOnce s :=
  h.induct sentOnce_init fun _ _ _ hm ih he =>
    sentOnce_step (reachable_inv hm) (reachable_inv (hm.tail he)) ih he

/-! ## Which `wake` calls there are -/

theorem stepAuthenticate_wakes (h : stepAuthenticate s c args p = some s') : s'.wakes = s.wakes := by
  cases p with
  | getInstance device p =>
    obtain ⟨_, _, rfl⟩ := Option.map_eq_some_iff.mp h
    rfl
  | put device ls id => cases ls <;> cases h <;> rfl
  | construct | pause | startCountdown | wait | readAuthenticated | readTimedout | respond =>
    cases h
    rfl
  | _ => cases h

theorem stepCountdown_wakes {p : CountdownPc} (h : stepCountdown s c p = some s') :
    s'.wakes = s.wakes := by
  cases p with
  | notStarted => cases h
  | loop i =>
    cases h
    rfl
  | resume p =>
    cases p <;> cases h
    rfl

theorem stepWake_wakes {w : ℕ} {auth : Bool} {requestId : String} {p : WakePc}
    (h : stepWake s w auth requestId p = some s') :
    ∃ q, s'.wakes = Function.update s.wakes w (some ⟨auth, requestId, q⟩) := by
  cases p with
  | getInstance p =>
    obtain ⟨_, _, rfl⟩ := Option.map_eq_some_iff.mp h
    exact ⟨_, rfl⟩
  | get ls =>
    simp only [stepWake] at h
    split at h <;> cases h <;> exact ⟨_, rfl⟩
  | resume a p => cases p <;> cases h <;> exact ⟨_, rfl⟩
  | _ => cases h

/-- The `wake` calls are those of the state before, and the one that has just arrived. -/
theorem step_wakes (h : step s e = some s') (w : ℕ) (th : Wake) (hw : s'.wakes w = some th) :
    (∃ th', s.wakes w = some th' ∧ th'.requestId = th.requestId) ∨
      ∃ auth, e = .wake w auth th.requestId := by
  cases e with
  | authenticate d args =>
    obtain ⟨_, rfl⟩ := whenever_eq_some.mp h
    exact .inl ⟨th, hw, rfl⟩
  | lookup d result | send d published | sendReturn d exit =>
    simp only [step] at h
    split at h <;> cases h
    exact .inl ⟨th, hw, rfl⟩
  | generate d uuid =>
    simp only [step] at h
    split at h
    · obtain ⟨_, rfl⟩ := whenever_eq_some.mp h
      exact .inl ⟨th, hw, rfl⟩
    · cases h
  | run d =>
    obtain ⟨_, _, h⟩ := Option.bind_eq_some_iff.mp h
    rw [stepAuthenticate_wakes h] at hw
    exact .inl ⟨th, hw, rfl⟩
  | tick d =>
    rw [stepCountdown_wakes h] at hw
    exact .inl ⟨th, hw, rfl⟩
  | wake v auth requestId =>
    obtain ⟨_, rfl⟩ := whenever_eq_some.mp h
    by_cases hwv : w = v
    · subst hwv
      obtain rfl := Option.some.inj ((Function.update_self w _ s.wakes).symm.trans hw)
      exact .inr ⟨auth, rfl⟩
    · exact .inl ⟨th, (Function.update_of_ne hwv _ _).symm.trans hw, rfl⟩
  | runWake v =>
    obtain ⟨⟨auth, requestId, p⟩, hv, h⟩ := Option.bind_eq_some_iff.mp h
    obtain ⟨q, hwakes⟩ := stepWake_wakes h
    rw [hwakes] at hw
    by_cases hwv : w = v
    · subst hwv
      rw [Function.update_self] at hw
      cases hw
      exact .inl ⟨_, hv, rfl⟩
    · rw [Function.update_of_ne hwv] at hw
      exact .inl ⟨th, hw, rfl⟩

/-! ## Who has approved -/

/-- Behind an answer `authenticated = true` there is a `wake(true, id)` for the id of the call. -/
theorem approver_of_answer {id : String} {a timedout : Bool} {details : Value}
    (h : Reachable step .init s) (hc : s.authenticates c = some ⟨args, .answered id a timedout (some
      (Success.response none (some [("authenticated", .bool true), ("details", details)])))⟩) :
    ∃ w th, s.wakes w = some th ∧ th.auth = true ∧ th.requestId = id := by
  have hs := reachable_inv h
  obtain rfl := hs.read_of_answer hc
  have hread : (project c s).waiter.hasApproval = true := by
    rw [project_waiter s hc]
    rfl
  obtain ⟨w, r, hr, hauth, _⟩ := (awake_of_reachable (project_of_init h c)).read hread
  obtain ⟨th, hth, hcall⟩ := Option.bind_eq_some_iff.mp hr
  obtain ⟨htarget, ha⟩ := Wake.target_of_call hcall
  have hid : s.putIdOf c = some th.requestId := hs.target_id hth htarget
  rw [State.putIdOf, hc] at hid
  exact ⟨w, th, hth, ha ▸ hauth, (Option.some.inj hid).symm⟩

end Auth8.Server
