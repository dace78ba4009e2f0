import Auth8.Request.RequestSystem

/-! # Which decision is answered when `resumeThread` is atomic

Every `resumeThread` call is taken as one step here. The request thread may still poll and read late,
and nothing in `resumeThread` looks at an earlier call: the fields hold the arguments of the last call,
so the answer is the first decision exactly when the last call before each read agrees with it. -/
namespace Auth8.Request
open EventRuns Persistent
set_option autoImplicit false

/-- The system with every `resumeThread` call executed without interruption: the event that makes a
call also executes its assignments, and no assignment is an event of its own. -/
def atomicStep (s : State) : Event → Option State
  | .wake k auth =>
    run step s [.wake k auth, .assign (.wake k) .running, .assign (.wake k) .authenticated,
      .assign (.wake k) .timedout]
  | .expire =>
    run step s [.expire, .assign .countdown .running, .assign .countdown .authenticated,
      .assign .countdown .timedout]
  | .assign _ _ => none
  | e => step s e

variable {s s' : State}

theorem atomicStep_wake {k : ℕ} {auth : Bool} :
    atomicStep s (.wake k auth) = some s' ↔
      (s.waiter.isPublished = true ∧ s.wakes k = none) ∧
        { s with request := s.request.resumeThread auth false
                 wakes := Function.update s.wakes k (some ⟨auth, false, .done⟩) } = s' := by
  simp [atomicStep, run_cons_eq_some, step_wake, step_assign, State.call, State.advance,
    ResumeCall.enter, Assignment.after, AuthRequest.resumeThread]

theorem atomicStep_expire :
    atomicStep s .expire = some s' ↔
      ∃ i : ℕ, s.countdown = .loop i ∧ ¬ (i : Int) < s.request.timeout ∧
        { s with request := s.request.resumeThread false true
                 countdown := .resume .done } = s' := by
  simp [atomicStep, run_cons_eq_some, step_expire, step_assign, State.call, State.advance,
    Assignment.after, AuthRequest.resumeThread, ← exists_and_right, and_assoc]

theorem step_of_atomicStep {e : Event} (h : atomicStep s e = some s') (he : resumeArgs e = none) :
    step s e = some s' := by
  cases e with
  | wake k auth => cases he
  | expire => cases he
  | assign c f => cases h
  | _ => exact h

theorem atomic_run {es : List Event} (h : run atomicStep s es = some s') :
    Reachable step s s' := by
  refine run_invariant (P := fun m => Reachable step s m) ?_ (.refl s) h
  intro m e m' hm he
  cases e with
  | wake k auth => exact hm.trans (.of_run he)
  | expire => exact hm.trans (.of_run he)
  | assign c f => cases he
  | _ => exact hm.tail (step_of_atomicStep he rfl)

/-! ## The schedule so far determines the fields -/

/-- The pair of the last `resumeThread` call. -/
def lastDecision (es : List Event) : Option (Bool × Bool) := (resumes es).getLast?

/-- The pair of the first `resumeThread` call. -/
def firstDecision (es : List Event) : Option (Bool × Bool) := (resumes es).head?

theorem lastDecision_concat (es : List Event) (e : Event) :
    lastDecision (es ++ [e]) = (resumeArgs e).or (lastDecision es) := by
  rw [lastDecision, resumes_concat]
  cases resumeArgs e <;> simp [lastDecision]

/-- What the request thread has read, in terms of the schedule. -/
def ReadsOf (es : List Event) : Waiter → Prop
  | .read a =>
    Event.readAuthenticated ∈ es ∧ Event.readTimedout ∉ es ∧
      (lastDecision (before .readAuthenticated es)).map Prod.fst = some a ∧ lastDecision es ≠ none
  | .answered a t =>
    Event.readAuthenticated ∈ es ∧ Event.readTimedout ∈ es ∧
      (lastDecision (before .readAuthenticated es)).map Prod.fst = some a ∧
      (lastDecision (before .readTimedout es)).map Prod.snd = some t
  | .left => Event.readAuthenticated ∉ es ∧ Event.readTimedout ∉ es ∧ lastDecision es ≠ none
  | _ => Event.readAuthenticated ∉ es ∧ Event.readTimedout ∉ es

structure Decisions (es : List Event) (s : State) : Prop where
  unstarted : s.waiter.isStarted = false → lastDecision es = none ∧ s.countdown = .notStarted
  paused : s.waiter = .paused → s.request.running = false
  authenticated : s.request.authenticated = ((lastDecision es).map Prod.fst).getD false
  timedout : s.request.timedout = ((lastDecision es).map Prod.snd).getD false
  running : s.waiter.isStarted = true → s.request.running = true → lastDecision es ≠ none
  reads : ReadsOf es s.waiter

theorem readsOf_unread {es : List Event} {w : Waiter} (h : w.isUnread = true) :
    ReadsOf es w ↔ Event.readAuthenticated ∉ es ∧ Event.readTimedout ∉ es := by
  cases w <;> first | rfl | cases h

theorem ReadsOf.concat {es : List Event} {w : Waiter} {e : Event} (h : ReadsOf es w)
    (ha : e ≠ .readAuthenticated) (ht : e ≠ .readTimedout) : ReadsOf (es ++ [e]) w := by
  have hl : lastDecision es ≠ none → lastDecision (es ++ [e]) ≠ none := by
    rw [lastDecision_concat]
    cases resumeArgs e <;> simp
  cases w with
  | read a =>
    obtain ⟨h1, h2, h3, h4⟩ := h
    refine ⟨by simp [h1], by simp [h2, ht.symm], ?_, hl h4⟩
    rw [before_concat_of_mem _ h1, h3]
  | answered a t =>
    obtain ⟨h1, h2, h3, h4⟩ := h
    refine ⟨by simp [h1], by simp [h2], ?_, ?_⟩
    · rw [before_concat_of_mem _ h1, h3]
    · rw [before_concat_of_mem _ h2, h4]
  | left => exact ⟨by simp [h.1, ha.symm], by simp [h.2.1, ht.symm], hl h.2.2⟩
  | _ => exact ⟨by simp [h.1, ha.symm], by simp [h.2, ht.symm]⟩

/-- A call makes its pair the last decision and overwrites the fields, whatever they held. -/
theorem Decisions.resume {es : List Event} {e : Event} {a t : Bool} (h : Decisions es s)
    (he : resumeArgs e = some (a, t)) (hs : s.waiter.isStarted = true) (hw : s'.waiter = s.waiter)
    (hr : s'.request = s.request.resumeThread a t) : Decisions (es ++ [e]) s' := by
  have hl : lastDecision (es ++ [e]) = some (a, t) := by simp [lastDecision_concat, he]
  refine ⟨?_, ?_, ?_, ?_, ?_, ?_⟩
  · intro hn
    rw [hw, hs] at hn
    cases hn
  · intro hn
    rw [← hw, hn] at hs
    cases hs
  · rw [hr, hl]
    rfl
  · rw [hr, hl]
    rfl
  · intro _ _
    simp [hl]
  · rw [hw]
    exact h.reads.concat (by rintro rfl; cases he) (by rintro rfl; cases he)

theorem Decisions.quiet {es : List Event} {e : Event} (h : Decisions es s) (hq : e.isQuiet = true)
    (he : step s e = some s') : Decisions (es ++ [e]) s' := by
  have q : Quiet s s' := quiet_of_step he hq fun hs => (h.unstarted hs).2
  have hl : lastDecision (es ++ [e]) = lastDecision es := by
    simp [lastDecision_concat, resumeArgs_of_quiet hq]
  have hr : ReadsOf (es ++ [e]) s.waiter :=
    h.reads.concat (by rintro rfl; cases hq) (by rintro rfl; cases hq)
  have hrun : s'.waiter.isStarted = true → s'.request.running = true → lastDecision es ≠ none := by
    intro hs hr
    obtain ⟨hrun, hs | hs⟩ := q.running hs
    · exact h.running hs (hrun ▸ hr)
    · rw [hrun, h.paused hs] at hr
      cases hr
  refine ⟨?_, ?_, ?_, ?_, hl ▸ hrun, ?_⟩
  · intro hn
    obtain ⟨hs, hc⟩ := q.unstarted hn
    rw [hl, hc]
    exact h.unstarted hs
  · intro hp
    rcases q.paused hp with hr | ⟨hs, hr⟩
    · exact hr
    · rw [hr, h.paused hs]
  · rw [hl]
    rcases q.authenticated with ha | ⟨hs, ha⟩
    · rw [ha, h.authenticated]
    · rw [ha, (h.unstarted hs).1]
      rfl
  · rw [hl]
    rcases q.timedout with ht | ⟨hs, ht⟩
    · rw [ht, h.timedout]
    · rw [ht, (h.unstarted hs).1]
      rfl
  · rcases q.waiter with hw | ⟨hw, hw'⟩ | ⟨hw, hw', hp⟩
    · rw [hw]
      exact hr
    · exact (readsOf_unread hw').mpr ((readsOf_unread hw).mp hr)
    · obtain ⟨h1, h2⟩ := (readsOf_unread (by rw [hw]; rfl)).mp hr
      rw [hw']
      exact ⟨h1, h2, hl ▸ h.running (by rw [hw]; rfl) hp⟩

theorem Decisions.readAuthenticated {es : List Event} (h : Decisions es s)
    (he : step s .readAuthenticated = some s') : Decisions (es ++ [.readAuthenticated]) s' := by
  obtain ⟨hw, rfl⟩ := whenever_eq_some.mp he
  have hs : s.waiter.isStarted = true := by rw [hw]; rfl
  have hl : lastDecision (es ++ [.readAuthenticated]) = lastDecision es := by
    simp [lastDecision_concat, resumeArgs]
  obtain ⟨h1, h2, h3⟩ : ReadsOf es .left := hw ▸ h.reads
  obtain ⟨p, hp⟩ := Option.ne_none_iff_exists'.mp h3
  refine ⟨by simp [Waiter.isStarted], by simp, hl ▸ h.authenticated, hl ▸ h.timedout,
    fun _ => hl ▸ h.running hs, ?_⟩
  refine ⟨by simp, by simp [h2], ?_, hl ▸ h3⟩
  rw [before_concat_self h1, h.authenticated, hp]
  rfl

/-- The second read records the last decision before it, which may be another one. -/
theorem Decisions.readTimedout {es : List Event} (h : Decisions es s)
    (he : step s .readTimedout = some s') : Decisions (es ++ [.readTimedout]) s' := by
  obtain ⟨a, ha, rfl⟩ := step_readTimedout.mp he
  have hs : s.waiter.isStarted = true := by rw [ha]; rfl
  have hl : lastDecision (es ++ [.readTimedout]) = lastDecision es := by
    simp [lastDecision_concat, resumeArgs]
  obtain ⟨h1, h2, h3, h4⟩ : ReadsOf es (.read a) := ha ▸ h.reads
  obtain ⟨p, hp⟩ := Option.ne_none_iff_exists'.mp h4
  refine ⟨by simp [Waiter.isStarted], by simp, hl ▸ h.authenticated, hl ▸ h.timedout,
    fun _ => hl ▸ h.running hs, ?_⟩
  refine ⟨by simp [h1], by simp, by rw [before_concat_of_mem _ h1, h3], ?_⟩
  rw [before_concat_self h2, h.timedout, hp]
  rfl

theorem decisions_of_run {es : List Event} (h : run atomicStep State.init es = some s) :
    Decisions es s := by
  refine run_history (P := Decisions) ?_ ?_ h
  · constructor <;> simp [State.init, AuthRequest.default, lastDecision, resumes, Waiter.isStarted,
      ReadsOf]
  · intro es m e m' _ ih he
    cases e with
    | wake k auth =>
      obtain ⟨⟨hp, _⟩, rfl⟩ := atomicStep_wake.mp he
      exact ih.resume rfl (Waiter.isStarted_of_isPublished hp) rfl rfl
    | expire =>
      obtain ⟨i, hi, _, rfl⟩ := atomicStep_expire.mp he
      have hs : m.waiter.isStarted = true := by
        by_contra hn
        rw [(ih.unstarted (by simpa using hn)).2] at hi
        cases hi
      exact ih.resume rfl hs rfl rfl
    | assign c f => cases he
    | readAuthenticated => exact ih.readAuthenticated he
    | readTimedout => exact ih.readTimedout he
    | _ => exact ih.quiet rfl (step_of_atomicStep he rfl)

/-! ## The answer -/

/-- The last call before each of the two reads carries what the first call carries there. -/
def ReadsAgreeWithFirst (es : List Event) : Prop :=
  (lastDecision (before .readAuthenticated es)).map Prod.fst = (firstDecision es).map Prod.fst ∧
    (lastDecision (before .readTimedout es)).map Prod.snd = (firstDecision es).map Prod.snd

instance (es : List Event) : Decidable (ReadsAgreeWithFirst es) :=
  inferInstanceAs (Decidable (_ ∧ _))

/-- The answer of `authenticate` is the pair of the first call exactly when no later call has changed
that pair by the time of the reads. -/
theorem answer_eq_first_iff {es : List Event} {a t : Bool}
    (h : run atomicStep State.init es = some s) (hw : s.waiter = .answered a t) :
    firstDecision es = some (a, t) ↔ ReadsAgreeWithFirst es := by
  obtain ⟨_, _, ha, ht⟩ : ReadsOf es (.answered a t) := hw ▸ (decisions_of_run h).reads
  rw [ReadsAgreeWithFirst, ha, ht]
  constructor
  · intro hf
    simp [hf]
  · rintro ⟨h1, h2⟩
    cases hf : firstDecision es with
    | none => simp [hf] at h1
    | some p => simp_all

def approval : List Event := pushed ++ [.wake 0 true, .poll, .readAuthenticated, .readTimedout]

theorem approval_answer :
    firstDecision approval = some (true, false) ↔ ReadsAgreeWithFirst approval :=
  answer_eq_first_iff (Option.some_get (by decide : (run atomicStep State.init approval).isSome)).symm
    (by rfl)

def denialThenApproval : List Event :=
  pushed ++ [.wake 0 false, .wake 1 true, .poll, .readAuthenticated, .readTimedout]

def approvalThenExpiry : List Event :=
  pushed ++ [.wake 0 true, .expire, .poll, .readAuthenticated, .readTimedout]

/-- A denial is overwritten by an approval, and an approval by the countdown that is still alive. -/
theorem later_call_overwrites :
    ((run atomicStep State.init denialThenApproval).map State.waiter = some (.answered true false) ∧
      firstDecision denialThenApproval = some (false, false)) ∧
    ((run atomicStep State.init approvalThenExpiry).map State.waiter = some (.answered false true) ∧
      firstDecision approvalThenExpiry = some (true, false)) := by
  decide

end Auth8.Request
