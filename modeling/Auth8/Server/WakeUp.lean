import Auth8.Server.Delivery

/-! # No lost wake-up and no stuck waiter

The request system gives both halves: what a call has woken stays woken, and a call that waits on a
paused request has its countdown ahead of it. What is added here is that the countdown, whatever the
other threads do, gets there after as many statements as its sleeps and two more. -/
namespace Auth8.Server
open EventRuns Persistent Jaxrs Request
set_option autoImplicit false

variable {s s' : State} {c : ℕ}

/-- Some `resumeThread` call on the request of `c` has executed `running = true`. -/
def Resumed (s : State) (c : ℕ) : Prop :=
  (s.countdowns c).past .running = true ∨
    ∃ w th, s.wakes w = some th ∧ th.hasAssigned c .running = true

theorem Resumed.call (h : Resumed s c) :
    ∃ d r, (project c s).call d = some r ∧ r.pc.past .running = true := by
  rcases h with h | ⟨w, th, hw, h⟩
  · cases hc : s.countdowns c with
    | resume pc =>
      refine ⟨.countdown, ⟨false, true, pc⟩, by simp [Request.State.call, hc], ?_⟩
      rwa [hc] at h
    | _ =>
      rw [hc] at h
      cases h
  · rw [Wake.hasAssigned] at h
    split at h
    · next r hr => exact ⟨.wake w, r, by simp [Request.State.call, project, hw, hr], h⟩
    · cases h

/-! ## The countdown goes on -/

/-- The statements left until the countdown thread has executed `running = true`. -/
def statementsLeft (timeout : Int) : CountdownPc → ℕ
  | .loop i => (CountdownPc.loop i).sleepsLeft timeout + 2
  | .resume (.next .running) => 1
  | _ => 0

def State.left (s : State) (c : ℕ) : ℕ := statementsLeft (s.requests c).timeout (s.countdowns c)

theorem State.left_le (s : State) (c : ℕ) :
    s.left c ≤ (s.countdowns c).sleepsLeft (s.requests c).timeout + 2 := by
  rw [State.left]
  cases s.countdowns c with
  | notStarted => exact Nat.zero_le _
  | loop i => exact le_rfl
  | resume p =>
    cases p with
    | done => exact Nat.zero_le _
    | next f => cases f <;> simp [statementsLeft]

/-- The bound of the countdown of `c` and its position stay. -/
def Untouched (s s' : State) (c : ℕ) : Prop :=
  (s'.requests c).timeout = (s.requests c).timeout ∧ s'.countdowns c = s.countdowns c

theorem untouched_of_project (h : project c s' = project c s) : Untouched s s' c :=
  ⟨congrArg (fun m => m.request.timeout) h, congrArg Request.State.countdown h⟩

theorem stepAuthenticate_untouched {args : Arguments} {p : AuthenticatePc}
    (hp : p.waiter.isStarted = true) (h : stepAuthenticate s c args p = some s') :
    Untouched s s' c := by
  cases p with
  | getInstance | construct | pause | startCountdown => cases hp
  | put device ls id => cases ls <;> cases h <;> exact ⟨rfl, rfl⟩
  | wait id | readAuthenticated id | readTimedout id a | respond id a t =>
    cases h
    exact ⟨rfl, rfl⟩
  | _ => cases h

theorem stepWake_untouched {w : ℕ} {auth : Bool} {requestId : String} {p : WakePc}
    (h : stepWake s w auth requestId p = some s') : Untouched s s' c := by
  cases p with
  | getInstance p =>
    obtain ⟨⟨g, x⟩, _, rfl⟩ := Option.map_eq_some_iff.mp h
    exact ⟨rfl, rfl⟩
  | get ls =>
    simp only [stepWake] at h
    split at h <;> cases h <;> exact ⟨rfl, rfl⟩
  | resume a p =>
    cases p with
    | done =>
      cases h
      exact ⟨rfl, rfl⟩
    | next f =>
      cases h
      refine ⟨?_, rfl⟩
      by_cases hc : c = a <;> simp [State.setWake, State.setRequest, hc]
  | _ => cases h

theorem stepCountdown_timeout {p : CountdownPc} (h : stepCountdown s c p = some s') :
    (s'.requests c).timeout = (s.requests c).timeout := by
  cases p with
  | notStarted => cases h
  | loop i =>
    cases h
    rfl
  | resume p =>
    cases p <;> cases h
    simp [State.setCountdown, State.setRequest]

/-- Once the countdown has been started, its bound is fixed and only its own statements move it. -/
theorem step_started {e : Event} (h : step s e = some s')
    (hs : (project c s).waiter.isStarted = true) :
    (s'.requests c).timeout = (s.requests c).timeout ∧
      (e = .tick c ∨ s'.countdowns c = s.countdowns c) := by
  have hfixed : Untouched s s' c ∨ e = .tick c ∧ (s'.requests c).timeout = (s.requests c).timeout := by
    cases e with
    | authenticate d args | wake w auth requestId =>
      obtain ⟨_, rfl⟩ := whenever_eq_some.mp h
      exact .inl ⟨rfl, rfl⟩
    | lookup d result | send d published | sendReturn d exit =>
      simp only [step] at h
      split at h <;> cases h
      exact .inl ⟨rfl, rfl⟩
    | generate d uuid =>
      simp only [step] at h
      split at h
      · obtain ⟨_, rfl⟩ := whenever_eq_some.mp h
        exact .inl ⟨rfl, rfl⟩
      · cases h
    | run d =>
      obtain ⟨⟨args, p⟩, hd, h⟩ := Option.bind_eq_some_iff.mp h
      by_cases hc : c = d
      · subst hc
        rw [project_waiter s hd] at hs
        exact .inl (stepAuthenticate_untouched hs h)
      · exact .inl (untouched_of_project (stepAuthenticate_other hc h))
    | runWake w =>
      obtain ⟨_, _, h⟩ := Option.bind_eq_some_iff.mp h
      exact .inl (stepWake_untouched h)
    | tick d =>
      by_cases hc : c = d
      · subst hc
        exact .inr ⟨rfl, stepCountdown_timeout h⟩
      · exact .inl (untouched_of_project (stepCountdown_other hc h))
  rcases hfixed with ⟨htimeout, hcountdown⟩ | ⟨rfl, htimeout⟩
  · exact ⟨htimeout, .inr hcountdown⟩
  · exact ⟨htimeout, .inl rfl⟩

/-- A statement of the countdown brings a paused request nearer to its wake-up. -/
theorem tick_left (ha : Awake (project c s)) (hs : (project c s).waiter.isStarted = true)
    (hr : (s.requests c).running = false) :
    ∃ s', step s (.tick c) = some s' ∧ ((s'.requests c).running = true ∨ s'.left c + 1 ≤ s.left c) := by
  rcases ha.countdown hs hr with ⟨i, hi⟩ | hi
  · have hi : s.countdowns c = .loop i := hi
    refine ⟨_, by rw [step, hi]; rfl, .inr ?_⟩
    by_cases hlt : (i : Int) < (s.requests c).timeout
    · simp [State.left, State.setCountdown, statementsLeft, CountdownPc.sleepsLeft, hi, hlt]
      omega
    · simp [State.left, State.setCountdown, statementsLeft, hi, hlt]
  · have hi : s.countdowns c = .resume (.next .running) := hi
    refine ⟨_, by rw [step, hi]; rfl, .inl ?_⟩
    simp [State.setCountdown, State.setRequest, AuthRequest.assign]

/-- Whatever the others do, as many statements of the countdown as it has left wake the request. -/
theorem countdown_run (h : Reachable step .init s) (hs : (project c s).waiter.isStarted = true)
    {es : List Event} (hrun : run step s es = some s') :
    (project c s').waiter.isStarted = true ∧
      ((s'.requests c).running = true ∨ s'.left c + es.count (.tick c) ≤ s.left c) := by
  refine run_history (P := fun es m => (project c m).waiter.isStarted = true ∧
    ((m.requests c).running = true ∨ m.left c + es.count (.tick c) ≤ s.left c))
    ⟨hs, .inr le_rfl⟩ ?_ hrun
  rintro es m e m' hm ⟨hms, hmr⟩ he
  have hreach : Reachable step .init m := h.trans ⟨es, hm⟩
  have hinit := project_of_init hreach c
  have hnext : Reachable Request.step (project c m) (project c m') :=
    project_reachable hreach ((Reachable.refl m).tail he) c
  refine ⟨isStarted_of_reachable hinit hms hnext, ?_⟩
  cases hr : (m.requests c).running with
  | true => exact .inl (woken_of_reachable hinit ⟨hms, hr⟩ hnext).2
  | false =>
    have hle : m.left c + es.count (.tick c) ≤ s.left c := hmr.resolve_left (by simp [hr])
    rw [List.count_append, List.count_singleton]
    obtain ⟨ht, hc⟩ := step_started he hms
    by_cases hec : e = .tick c
    · subst hec
      obtain ⟨m'', hm'', hleft⟩ := tick_left (awake_of_reachable hinit) hms hr
      obtain rfl : m' = m'' := Option.some.inj (he.symm.trans hm'')
      refine hleft.imp_right fun hlt => ?_
      simp only [BEq.rfl, if_true]
      omega
    · right
      have hsame : m'.left c = m.left c := by rw [State.left, ht, hc.resolve_left hec, State.left]
      rw [hsame]
      simpa [hec] using hle

/-- For every call and its own countdown and wakes, among any others: once a `resumeThread` call has set
`running`, it stays set; and a call that waits on a paused request has its countdown started, before its
first assignment and able to go on, and as many statements of that thread as its sleeps and two more
wake the request in every schedule. -/
theorem no_lost_wake_up (h : Reachable step .init s) (c : ℕ) :
    (∀ s', Resumed s c → Reachable step s s' → (s'.requests c).running = true) ∧
    ∀ args id, s.authenticates c = some ⟨args, .wait id⟩ → (s.requests c).running = false →
      s.countdowns c ≠ .notStarted ∧ (s.countdowns c).past .running = false ∧
      (step s (.tick c)).isSome ∧
      ∀ es s', run step s es = some s' →
        (s.countdowns c).sleepsLeft (s.requests c).timeout + 2 ≤ es.count (.tick c) →
        (s'.requests c).running = true := by
  have hinit := project_of_init h c
  have ha := awake_of_reachable hinit
  refine ⟨?_, ?_⟩
  · intro s' hres h'
    obtain ⟨d, r, hr, hp⟩ := hres.call
    exact (woken_of_reachable hinit (ha.woken hr hp) (project_reachable h h' c)).2
  · intro args id hc hr
    have hs : (project c s).waiter.isStarted = true := by
      rw [project_waiter s hc]
      rfl
    obtain ⟨m, hm, _⟩ := tick_left ha hs hr
    refine ⟨ha.started hs, ?_, by rw [hm]; rfl, ?_⟩
    · rcases ha.countdown hs hr with ⟨i, hi⟩ | hi <;>
        exact (congrArg (CountdownPc.past .running) hi).trans rfl
    · intro es s' hrun hn
      obtain ⟨hs', hrun' | hleft⟩ := countdown_run h hs hrun
      · exact hrun'
      · by_contra hr'
        have h' : Reachable step .init s' := h.trans ⟨es, hrun⟩
        -- a paused request has at least one statement of its countdown left
        have hpos : 0 < s'.left c := by
          have ha' := awake_of_reachable (project_of_init h' c)
          rcases ha'.countdown hs' (by simpa using hr') with ⟨i, hi⟩ | hi
          · have hi : s'.countdowns c = .loop i := hi
            simp [State.left, hi, statementsLeft]
          · have hi : s'.countdowns c = .resume (.next .running) := hi
            simp [State.left, hi, statementsLeft]
        have := s.left_le c
        omega

/-- The 30 sleeps of the call and two more statements. -/
theorem pushSent_wakes :
    (((run step ((run step .init pushSent).get (by decide)) (List.replicate 32 (.tick 0))).get
      (by decide)).requests 0).running = true :=
  ((no_lost_wake_up ⟨pushSent, (Option.some_get _).symm⟩ 0).2 _ firstId (by rfl) (by rfl)).2.2.2 _ _
    (Option.some_get _).symm (by decide)

end Auth8.Server
