import Auth8.Request.RequestSystem

/-! # What a waiting request thread can rely on

A call that has executed `running = true` is never undone, a request that has been paused has its
countdown, and only a `wake` that approves makes a request authenticated. -/
namespace Auth8.Request
open EventRuns Persistent
set_option autoImplicit false

def Waiter.hasApproval : Waiter → Bool
  | .read a | .answered a _ => a
  | _ => false

/-- A `wake` that approves has executed its assignment to `authenticated`. -/
def ApprovedBy (s : State) : Prop :=
  ∃ k r, s.wakes k = some r ∧ r.authenticated = true ∧ r.pc.past .authenticated = true

structure Awake (s : State) : Prop where
  unstarted : s.waiter.isStarted = false → (∀ k, s.wakes k = none) ∧ s.countdown = .notStarted
  started : s.waiter.isStarted = true → s.countdown ≠ .notStarted
  running : ∀ c r, s.call c = some r → r.pc.past .running = true → s.request.running = true
  approved : s.request.authenticated = true → ApprovedBy s
  read : s.waiter.hasApproval = true → ApprovedBy s

variable {s s' : State}

theorem ApprovedBy.of_wakes (h : ApprovedBy s) (hw : s'.wakes = s.wakes) : ApprovedBy s' := by
  obtain ⟨k, r, hk, hr⟩ := h
  exact ⟨k, r, hw ▸ hk, hr⟩

theorem Awake.isStarted (h : Awake s) {c : Caller} {r : ResumeCall} (hr : s.call c = some r) :
    s.waiter.isStarted = true := by
  by_contra hn
  rw [call_eq_none h.unstarted (by simpa using hn)] at hr
  cases hr

theorem Awake.quiet {e : Event} (h : Awake s) (hq : e.isQuiet = true) (he : step s e = some s') :
    Awake s' := by
  have q : Quiet s s' := quiet_of_step he hq fun hs => (h.unstarted hs).2
  refine ⟨?_, ?_, ?_, ?_, ?_⟩
  · intro hn
    obtain ⟨hs, hc⟩ := q.unstarted hn
    rw [q.wakes, hc]
    exact h.unstarted hs
  · intro hs hc
    obtain ⟨hs, hc⟩ := q.started hs hc
    exact h.started hs hc
  · intro c r hr hp
    rw [q.call_eq] at hr
    have hs' : s'.waiter.isStarted = true := by
      by_contra hn
      have hs := (q.unstarted (by simpa using hn)).1
      rw [h.isStarted hr] at hs
      cases hs
    rw [(q.running hs').1]
    exact h.running c r hr hp
  · intro ha
    rcases q.authenticated with hs | ⟨_, hs⟩ <;> rw [hs] at ha
    · exact (h.approved ha).of_wakes q.wakes
    · cases ha
  · intro ha
    refine (h.read ?_).of_wakes q.wakes
    rcases q.waiter with hw | ⟨_, hw⟩ | ⟨_, hw, _⟩
    · rwa [← hw]
    · cases hw' : s'.waiter <;> simp_all [Waiter.hasApproval, Waiter.isUnread]
    · rw [hw] at ha
      cases ha

theorem Awake.wake {k : ℕ} {auth : Bool} (h : Awake s) (he : step s (.wake k auth) = some s') :
    Awake s' := by
  obtain ⟨⟨hp, hk⟩, rfl⟩ := step_wake.mp he
  have hs := Waiter.isStarted_of_isPublished hp
  have hkeep : ApprovedBy s →
      ApprovedBy { s with wakes := Function.update s.wakes k (some (.enter auth false)) } := by
    rintro ⟨j, r, hj, hr⟩
    have hjk : j ≠ k := by
      rintro rfl
      rw [hk] at hj
      cases hj
    exact ⟨j, r, by simpa [hjk] using hj, hr⟩
  refine ⟨by simp [hs], h.started, ?_, fun ha => hkeep (h.approved ha), fun ha => hkeep (h.read ha)⟩
  intro c r hr hpast
  by_cases hc : c = .wake k
  · subst hc
    obtain rfl : ResumeCall.enter auth false = r := by simpa [State.call] using hr
    cases hpast
  · exact h.running c r ((s.advance_call_ne (.enter auth false) (.next .running) hc).symm.trans hr)
      hpast

theorem Awake.expire (h : Awake s) (he : step s .expire = some s') : Awake s' := by
  obtain ⟨i, hi, _, rfl⟩ := step_expire.mp he
  have hs : s.waiter.isStarted = true := by
    by_contra hn
    rw [(h.unstarted (by simpa using hn)).2] at hi
    cases hi
  refine ⟨by simp [hs], nofun, ?_, h.approved, h.read⟩
  intro c r hr hpast
  cases c with
  | wake k => exact h.running (.wake k) r hr hpast
  | countdown =>
    cases hr
    cases hpast

theorem Awake.assign {c : Caller} {f : Assignment} (h : Awake s)
    (he : step s (.assign c f) = some s') : Awake s' := by
  obtain ⟨r, hr, hpc, rfl⟩ := step_assign.mp he
  have hs := h.isStarted hr
  have hself := s.advance_call_self r c f.after hr
  have hkeep : ApprovedBy s → ApprovedBy (s.advance r c f.after) := by
    rintro ⟨k, q, hk, hq, hpast⟩
    by_cases hck : (.wake k : Caller) = c
    · subst hck
      obtain rfl : r = q := Option.some.inj (hr.symm.trans hk)
      refine ⟨k, _, hself, hq, ?_⟩
      rw [hpc] at hpast
      rw [past_after, hpast, Bool.true_or]
    · exact ⟨k, q, (s.advance_call_ne r f.after hck).trans hk, hq, hpast⟩
  refine ⟨by simp [hs], ?_, ?_, ?_, ?_⟩
  · intro _
    cases c with
    | wake k => exact h.started hs
    | countdown => nofun
  · intro d q hq hpast
    rw [AuthRequest.assign_running]
    by_cases hd : d = c
    · subst hd
      obtain rfl := Option.some.inj (hself.symm.trans hq)
      rw [past_after] at hpast
      cases hf : (ResumePc.next f).past .running with
      | false =>
        rw [hf, Bool.false_or] at hpast
        obtain rfl := eq_of_beq hpast
        simp
      | true => simp [h.running d r hr (by rw [hpc, hf])]
    · simp [h.running d q ((s.advance_call_ne r f.after hd).symm.trans hq) hpast]
  · intro ha
    rw [AuthRequest.assign_authenticated] at ha
    split at ha
    · next hf =>
      cases c with
      | wake k => exact ⟨k, _, hself, ha, by rw [hf]; rfl⟩
      | countdown =>
        obtain ⟨pc, _, rfl⟩ := State.call_countdown hr
        cases ha
    · exact (hkeep (h.approved ha)).of_wakes rfl
  · intro ha
    exact (hkeep (h.read (by simpa using ha))).of_wakes rfl

theorem awake_of_step {e : Event} (h : Awake s) (he : step s e = some s') : Awake s' := by
  cases e with
  | wake k auth => exact h.wake he
  | expire => exact h.expire he
  | assign c f => exact h.assign he
  | readAuthenticated =>
    obtain ⟨hw, rfl⟩ := whenever_eq_some.mp he
    have hs := h.started (by rw [hw]; rfl)
    exact ⟨nofun, fun _ => hs, h.running, h.approved, h.approved⟩
  | readTimedout =>
    obtain ⟨a, ha, rfl⟩ := step_readTimedout.mp he
    have hs := h.started (by rw [ha]; rfl)
    exact ⟨nofun, fun _ => hs, h.running, h.approved, fun hr => h.read (by rw [ha]; exact hr)⟩
  | _ => exact h.quiet rfl he

theorem awake_of_reachable (h : Reachable step .init s) : Awake s := by
  refine h.induct ?_ fun _ _ _ _ hs he => awake_of_step hs he
  constructor <;> simp [State.init, State.call, AuthRequest.default, Waiter.isStarted,
    Waiter.hasApproval]

/-! ## Nothing undoes a wake-up -/

/-- The countdown has been started and `running` is true. -/
def Woken (s : State) : Prop := s.waiter.isStarted = true ∧ s.request.running = true

theorem Awake.woken (h : Awake s) {c : Caller} {r : ResumeCall} (hr : s.call c = some r)
    (hp : r.pc.past .running = true) : Woken s :=
  ⟨h.isStarted hr, h.running c r hr hp⟩

theorem isStarted_of_step {e : Event} (h : Awake s) (hs : s.waiter.isStarted = true)
    (he : step s e = some s') : s'.waiter.isStarted = true := by
  cases e with
  | wake k auth =>
    obtain ⟨_, rfl⟩ := step_wake.mp he
    exact hs
  | expire =>
    obtain ⟨i, _, _, rfl⟩ := step_expire.mp he
    exact hs
  | assign c f =>
    obtain ⟨r, _, _, rfl⟩ := step_assign.mp he
    simpa using hs
  | readAuthenticated =>
    obtain ⟨_, rfl⟩ := whenever_eq_some.mp he
    rfl
  | readTimedout =>
    obtain ⟨a, _, rfl⟩ := step_readTimedout.mp he
    rfl
  | _ =>
    have q : Quiet s s' := quiet_of_step he rfl fun hn => (h.unstarted hn).2
    by_contra hn
    rw [(q.unstarted (by simpa using hn)).1] at hs
    cases hs

theorem woken_of_step {e : Event} (h : Awake s) (hw : Woken s) (he : step s e = some s') :
    Woken s' := by
  obtain ⟨hs, hr⟩ := hw
  have hs' := isStarted_of_step h hs he
  refine ⟨hs', ?_⟩
  cases e with
  | wake k auth =>
    obtain ⟨_, rfl⟩ := step_wake.mp he
    exact hr
  | expire =>
    obtain ⟨i, _, _, rfl⟩ := step_expire.mp he
    exact hr
  | assign c f =>
    obtain ⟨r, _, _, rfl⟩ := step_assign.mp he
    simp [AuthRequest.assign_running, hr]
  | readAuthenticated =>
    obtain ⟨_, rfl⟩ := whenever_eq_some.mp he
    exact hr
  | readTimedout =>
    obtain ⟨a, _, rfl⟩ := step_readTimedout.mp he
    exact hr
  | _ =>
    have q : Quiet s s' := quiet_of_step he rfl fun hn => (h.unstarted hn).2
    rw [(q.running hs').1, hr]

theorem isStarted_of_reachable (h : Reachable step .init s) (hs : s.waiter.isStarted = true)
    (h' : Reachable step s s') : s'.waiter.isStarted = true :=
  h'.induct (P := fun m => m.waiter.isStarted = true) hs fun _ _ _ hm hs he =>
    isStarted_of_step (awake_of_reachable (h.trans hm)) hs he

theorem woken_of_reachable (h : Reachable step .init s) (hw : Woken s) (h' : Reachable step s s') :
    Woken s' :=
  h'.induct hw fun _ _ _ hm hw he => woken_of_step (awake_of_reachable (h.trans hm)) hw he

/-- A request thread that waits has its countdown, which has not woken it yet. -/
theorem Awake.countdown (h : Awake s) (hs : s.waiter.isStarted = true)
    (hr : s.request.running = false) :
    (∃ i, s.countdown = .loop i) ∨ s.countdown = .resume (.next .running) := by
  cases hc : s.countdown with
  | notStarted => exact absurd hc (h.started hs)
  | loop i => exact .inl ⟨i, rfl⟩
  | resume pc =>
    right
    have hcall : s.call .countdown = some ⟨false, true, pc⟩ := by simp [State.call, hc]
    have hp : pc.past .running = false := by
      by_contra hn
      rw [h.running _ _ hcall (by simpa using hn)] at hr
      cases hr
    cases pc with
    | done => cases hp
    | next f => cases f <;> first | rfl | cases hp

end Auth8.Request
