import Auth8.Server.Invariant

/-! # One request of the server

`project c s` is what the server state says about the `AuthRequest` of the call `c`. Every event of the
server is one event of that request's system or does not concern it, so what is proved of one request
holds of each of the many requests the server is working on. -/
namespace Auth8.Server
open EventRuns Persistent Jaxrs Request
set_option autoImplicit false

def AuthenticatePc.waiter : AuthenticatePc → Waiter
  | .lookup | .getInstance _ _ | .construct _ _ | .rejected _ => .idle
  | .pause _ _ => .constructed
  | .startCountdown _ _ => .paused
  | .generate _ _ | .put _ _ _ => .counting
  | .send _ _ | .sending _ => .published
  | .wait _ => .polling
  | .readAuthenticated _ => .left
  | .readTimedout _ a => .read a
  | .respond _ a t | .answered _ a t _ => .answered a t
  | .failed _ _ => .failed

/-- The `resumeThread` call a `wake` makes on the `AuthRequest` of `c`. -/
def Wake.call (c : ℕ) (th : Wake) : Option ResumeCall :=
  match th.pc with
  | .resume a p => if a = c then some ⟨th.auth, false, p⟩ else none
  | .returned a _ => if a = c then some ⟨th.auth, false, .done⟩ else none
  | _ => none

def project (c : ℕ) (s : State) : Request.State where
  request := s.requests c
  waiter := ((s.authenticates c).map fun th => th.pc.waiter).getD .idle
  countdown := s.countdowns c
  wakes := fun w => (s.wakes w).bind (Wake.call c)

theorem project_init (c : ℕ) : project c .init = .init := rfl

section Updates
variable {c d : ℕ} (s : State)

@[simp] theorem project_request : (project c s).request = s.requests c := rfl

@[simp] theorem project_countdown : (project c s).countdown = s.countdowns c := rfl

theorem project_waiter {args : Arguments} {p : AuthenticatePc}
    (h : s.authenticates c = some ⟨args, p⟩) : (project c s).waiter = p.waiter := by
  simp [project, h]

theorem project_setAuthenticate (args : Arguments) (p : AuthenticatePc) :
    project c (s.setAuthenticate c args p) = { project c s with waiter := p.waiter } := by
  simp [project, State.setAuthenticate]

theorem project_setAuthenticate_ne (h : c ≠ d) (args : Arguments) (p : AuthenticatePc) :
    project c (s.setAuthenticate d args p) = project c s := by
  simp [project, State.setAuthenticate, Function.update_of_ne h]

/-- A move of the call that its request does not see. -/
theorem project_setAuthenticate_eq {args : Arguments} {p : AuthenticatePc}
    (hc : s.authenticates c = some ⟨args, p⟩) {q : AuthenticatePc} (hq : q.waiter = p.waiter) :
    project c (s.setAuthenticate c args q) = project c s := by
  rw [project_setAuthenticate, hq, ← project_waiter s hc]

theorem project_setRequest (r : AuthRequest) :
    project c (s.setRequest c r) = { project c s with request := r } := by
  simp [project, State.setRequest]

theorem project_setRequest_ne (h : c ≠ d) (r : AuthRequest) :
    project c (s.setRequest d r) = project c s := by
  simp [project, State.setRequest, Function.update_of_ne h]

theorem project_setCountdown (p : CountdownPc) :
    project c (s.setCountdown c p) = { project c s with countdown := p } := by
  simp [project, State.setCountdown]

theorem project_setCountdown_ne (h : c ≠ d) (p : CountdownPc) :
    project c (s.setCountdown d p) = project c s := by
  simp [project, State.setCountdown, Function.update_of_ne h]

theorem project_setWake (w : ℕ) (auth : Bool) (requestId : String) (p : WakePc) :
    project c (s.setWake w auth requestId p) =
      { project c s with
        wakes := Function.update (project c s).wakes w (Wake.call c ⟨auth, requestId, p⟩) } := by
  simp only [project, State.setWake, Request.State.mk.injEq, true_and]
  funext v
  by_cases hv : v = w
  · simp [hv]
  · simp [hv]

/-- A `wake` event that does not touch the request of `c`. -/
theorem project_setWake_eq (w : ℕ) (auth : Bool) (requestId : String) (p : WakePc)
    (h : (project c s).wakes w = Wake.call c ⟨auth, requestId, p⟩) :
    project c (s.setWake w auth requestId p) = project c s := by
  rw [project_setWake, ← h, Function.update_eq_self]

end Updates

/-! ## The simulation -/

/-- Seen from the request of `c`, nothing happens or one event of its system does. -/
def Follows (c : ℕ) (s s' : State) : Prop :=
  project c s' = project c s ∨ ∃ e, Request.step (project c s) e = some (project c s')

variable {s s' : State} {c d : ℕ}

theorem stepAuthenticate_other {args : Arguments} {p : AuthenticatePc} (hne : c ≠ d)
    (h : stepAuthenticate s d args p = some s') : project c s' = project c s := by
  cases p with
  | getInstance device p =>
    obtain ⟨⟨g, x⟩, _, rfl⟩ := Option.map_eq_some_iff.mp h
    exact project_setAuthenticate_ne _ hne _ _
  | construct device ls | pause device ls =>
    cases h
    rw [project_setAuthenticate_ne _ hne, project_setRequest_ne _ hne]
  | startCountdown device ls =>
    cases h
    rw [project_setAuthenticate_ne _ hne, project_setCountdown_ne _ hne]
  | put device ls id => cases ls <;> cases h <;> exact project_setAuthenticate_ne _ hne _ _
  | wait id | readAuthenticated id | readTimedout id a | respond id a t =>
    cases h
    exact project_setAuthenticate_ne _ hne _ _
  | _ => cases h

theorem stepAuthenticate_self {args : Arguments} {p : AuthenticatePc} (hs : Inv s)
    (hc : s.authenticates c = some ⟨args, p⟩) (h : stepAuthenticate s c args p = some s') :
    Follows c s s' := by
  have hw := project_waiter s hc
  cases p with
  | getInstance device p =>
    obtain ⟨⟨g, x⟩, _, rfl⟩ := Option.map_eq_some_iff.mp h
    exact .inl (project_setAuthenticate_eq _ hc (by cases x <;> rfl))
  | construct device ls =>
    cases h
    refine .inr ⟨.construct args.timeout device, whenever_eq_some.mpr ⟨hw, ?_⟩⟩
    rw [project_setAuthenticate, project_setRequest]
    rfl
  | pause device ls =>
    cases h
    refine .inr ⟨.pause, whenever_eq_some.mpr ⟨hw, ?_⟩⟩
    rw [project_setAuthenticate, project_setRequest]
    rfl
  | startCountdown device ls =>
    cases h
    refine .inr ⟨.startCountdown, whenever_eq_some.mpr ⟨hw, ?_⟩⟩
    rw [project_setAuthenticate, project_setCountdown]
    rfl
  | put device ls id =>
    -- a null reference would make the put throw, but the call holds the instance
    obtain ⟨hls, hn⟩ := hs.holds (.authenticate c) ls (by rw [State.ls, hc]; rfl)
    cases ls with
    | none => exact absurd hls.symm hn
    | some ls =>
      cases h
      refine .inr ⟨.put, whenever_eq_some.mpr ⟨hw, ?_⟩⟩
      rw [project_setAuthenticate]
      rfl
  | wait id =>
    cases h
    refine .inr ⟨.poll, step_poll.mpr ⟨hw, ?_⟩⟩
    rw [project_setAuthenticate, project_request]
    cases (s.requests c).running <;> rfl
  | readAuthenticated id =>
    cases h
    refine .inr ⟨.readAuthenticated, whenever_eq_some.mpr ⟨hw, ?_⟩⟩
    rw [project_setAuthenticate]
    rfl
  | readTimedout id a =>
    cases h
    refine .inr ⟨.readTimedout, step_readTimedout.mpr ⟨a, hw, ?_⟩⟩
    rw [project_setAuthenticate]
    rfl
  | respond id a t =>
    cases h
    exact .inl (project_setAuthenticate_eq _ hc rfl)
  | _ => cases h

theorem stepWake_follows {w : ℕ} {auth : Bool} {requestId : String} {p : WakePc} (hs : Inv s)
    (hc : s.wakes w = some ⟨auth, requestId, p⟩) (h : stepWake s w auth requestId p = some s') :
    Follows c s s' := by
  have hw : (project c s).wakes w = Wake.call c ⟨auth, requestId, p⟩ := by simp [project, hc]
  cases p with
  | getInstance p =>
    obtain ⟨⟨g, x⟩, _, rfl⟩ := Option.map_eq_some_iff.mp h
    left
    cases x <;> exact project_setWake_eq _ w auth requestId _ hw
  | get ls =>
    cases hl : ls.bind (s.singleton.get · requestId) with
    | none =>
      simp only [stepWake, hl] at h
      cases h
      exact .inl (project_setWake_eq s w auth requestId _ hw)
    | some a =>
      simp only [stepWake, hl] at h
      cases h
      by_cases ha : a = c
      · subst ha
        -- the request found has been put by its call
        obtain ⟨r, hr, hget⟩ := Option.bind_eq_some_iff.mp hl
        obtain ⟨hinst, _⟩ := hs.holds (.wake w) ls (by rw [State.ls, hc]; rfl)
        rw [LazySingleton.get_inst (hinst ▸ hr)] at hget
        obtain ⟨⟨args, p⟩, hth, hput⟩ := Option.bind_eq_some_iff.mp ((hs.registered _ _).mp hget)
        have hpub : (project a s).waiter.isPublished = true := by
          rw [project_waiter s hth]
          cases p <;> first | rfl | cases hput
        refine .inr ⟨.wake w auth, step_wake.mpr ⟨⟨hpub, hw⟩, ?_⟩⟩
        rw [project_setWake]
        simp [Wake.call, ResumeCall.enter]
      · exact .inl (project_setWake_eq s w auth requestId _ (by rw [hw]; simp [Wake.call, ha]))
  | resume a p =>
    cases p with
    | done =>
      cases h
      exact .inl (project_setWake_eq s w auth requestId _ hw)
    | next f =>
      cases h
      by_cases ha : a = c
      · subst ha
        have hcall : (project a s).call (.wake w) = some ⟨auth, false, .next f⟩ := by
          rw [State.call, hw]
          simp [Wake.call]
        refine .inr ⟨.assign (.wake w) f, step_assign.mpr ⟨_, hcall, rfl, ?_⟩⟩
        rw [project_setWake, project_setRequest]
        simp [Request.State.advance, Wake.call]
      · left
        have hne : c ≠ a := Ne.symm ha
        rw [project_setWake_eq _ w auth requestId, project_setRequest_ne _ hne]
        rw [project_setRequest_ne _ hne, hw]
        simp [Wake.call, ha]
  | _ => cases h

theorem stepCountdown_other {p : CountdownPc} (hne : c ≠ d) (h : stepCountdown s d p = some s') :
    project c s' = project c s := by
  cases p with
  | notStarted => cases h
  | loop i =>
    cases h
    exact project_setCountdown_ne _ hne _
  | resume p =>
    cases p <;> cases h
    rw [project_setCountdown_ne _ hne, project_setRequest_ne _ hne]

theorem stepCountdown_self (h : stepCountdown s c (s.countdowns c) = some s') : Follows c s s' := by
  cases hp : s.countdowns c with
  | notStarted =>
    rw [hp] at h
    cases h
  | loop i =>
    rw [hp] at h
    cases h
    rw [Follows, project_setCountdown]
    by_cases hi : (i : Int) < (s.requests c).timeout
    · exact .inr ⟨.sleep, step_sleep.mpr ⟨i, hp, hi, by simp [hi]⟩⟩
    · exact .inr ⟨.expire, step_expire.mpr ⟨i, hp, hi, by simp [hi]⟩⟩
  | resume p =>
    rw [hp] at h
    cases p with
    | done => cases h
    | next f =>
      cases h
      have hcall : (project c s).call .countdown = some ⟨false, true, .next f⟩ := by
        simp [Request.State.call, hp]
      refine .inr ⟨.assign .countdown f, step_assign.mpr ⟨_, hcall, rfl, ?_⟩⟩
      rw [project_setCountdown, project_setRequest]
      rfl

/-- Every event of the server is at most one event of each request. -/
theorem step_follows {e : Event} (hs : Inv s) (h : step s e = some s') (c : ℕ) : Follows c s s' := by
  cases e with
  | authenticate d args =>
    obtain ⟨hd, rfl⟩ := whenever_eq_some.mp h
    by_cases hc : c = d
    · subst hc
      left
      rw [project_setAuthenticate]
      simp [project, hd, AuthenticatePc.waiter]
    · exact .inl (project_setAuthenticate_ne _ hc _ _)
  | lookup d result =>
    simp only [step] at h
    split at h
    · next args hd =>
      cases h
      by_cases hc : c = d
      · subst hc
        exact .inl (project_setAuthenticate_eq _ hd (by cases result <;> rfl))
      · exact .inl (project_setAuthenticate_ne _ hc _ _)
    · cases h
  | generate d uuid =>
    simp only [step] at h
    split at h
    · next args device ls hd =>
      obtain ⟨_, rfl⟩ := whenever_eq_some.mp h
      by_cases hc : c = d
      · subst hc
        exact .inl (project_setAuthenticate_eq _ hd rfl)
      · exact .inl (project_setAuthenticate_ne _ hc _ _)
    · cases h
  | send d published =>
    simp only [step] at h
    split at h
    · next args device id hd =>
      cases h
      by_cases hc : c = d
      · subst hc
        exact .inl (project_setAuthenticate_eq _ hd rfl)
      · exact .inl (project_setAuthenticate_ne _ hc _ _)
    · cases h
  | sendReturn d exit =>
    simp only [step] at h
    split at h
    · next args id hd =>
      cases h
      by_cases hc : c = d
      · subst hc
        have hw := project_waiter s hd
        rw [Follows, project_setAuthenticate]
        cases exit with
        | returned => exact .inr ⟨.sent, whenever_eq_some.mpr ⟨hw, rfl⟩⟩
        | ioException => exact .inr ⟨.fail, whenever_eq_some.mpr ⟨hw, rfl⟩⟩
        | exception => exact .inr ⟨.fail, whenever_eq_some.mpr ⟨hw, rfl⟩⟩
      · exact .inl (project_setAuthenticate_ne _ hc _ _)
    · cases h
  | run d =>
    obtain ⟨⟨args, p⟩, hd, h⟩ := Option.bind_eq_some_iff.mp h
    by_cases hc : c = d
    · subst hc
      exact stepAuthenticate_self hs hd h
    · exact .inl (stepAuthenticate_other hc h)
  | wake w auth requestId =>
    obtain ⟨hw, rfl⟩ := whenever_eq_some.mp h
    exact .inl (project_setWake_eq s w auth requestId _ (by simp [project, hw, Wake.call]))
  | runWake w =>
    obtain ⟨⟨auth, requestId, p⟩, hw, h⟩ := Option.bind_eq_some_iff.mp h
    exact stepWake_follows hs hw h
  | tick d =>
    by_cases hc : c = d
    · subst hc
      exact stepCountdown_self h
    · exact .inl (stepCountdown_other hc h)

/-- What the server reaches from a reachable state, each of its requests reaches. -/
theorem project_reachable (h : Reachable step .init s) (h' : Reachable step s s') (c : ℕ) :
    Reachable Request.step (project c s) (project c s') :=
  h'.project fun _ _ _ hm he => step_follows (reachable_inv (h.trans hm)) he c

/-- What is proved of a reachable request holds of every request of a reachable server state. -/
theorem project_of_init (h : Reachable step .init s) (c : ℕ) :
    Reachable Request.step .init (project c s) :=
  project_init c ▸ project_reachable (.refl _) h c

end Auth8.Server
