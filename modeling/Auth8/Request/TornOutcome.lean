import Auth8.Request.RequestSystem

/-! # Which outcomes are torn when `resumeThread` is not atomic

Here every assignment of `resumeThread` is an event. `running` is assigned first, so the request
thread can leave its loop before the result fields are written, and two calls can each write one of
them. The fields are determined by their last assigners in the schedule; a pair read this way is the
pair of some call except in two kinds of schedule, which `Untorn` excludes. -/
namespace Auth8.Request
open EventRuns Persistent
set_option autoImplicit false

/-! ## The last assigner of a field -/

def assigner (f : Assignment) : Event → Option Caller
  | .assign c g => if g = f then some c else none
  | _ => none

/-- The thread that has made the last assignment to the field `f`. -/
def lastAssigner (f : Assignment) (es : List Event) : Option Caller :=
  (es.filterMap (assigner f)).getLast?

theorem lastAssigner_concat (f : Assignment) (es : List Event) (e : Event) :
    lastAssigner f (es ++ [e]) = (assigner f e).or (lastAssigner f es) := by
  rw [lastAssigner, List.filterMap_append]
  cases h : assigner f e <;> simp [lastAssigner, h]

def Approved (es : List Event) : Prop :=
  ∃ k, lastAssigner .authenticated es = some (.wake k) ∧ Event.wake k true ∈ es

def TimedOut (es : List Event) : Prop := lastAssigner .timedout es = some .countdown

/-- What the request thread has read, in terms of the schedule. -/
def PairRead (es : List Event) : Waiter → Prop
  | .read a =>
    Event.readAuthenticated ∈ es ∧ Event.readTimedout ∉ es ∧
      (a = true ↔ Approved (before .readAuthenticated es)) ∧
      (a = true → ∃ k, Event.wake k true ∈ es)
  | .answered a t =>
    Event.readAuthenticated ∈ es ∧ Event.readTimedout ∈ es ∧
      (a = true ↔ Approved (before .readAuthenticated es)) ∧
      (a = true → ∃ k, Event.wake k true ∈ before .readTimedout es) ∧
      (t = true ↔ TimedOut (before .readTimedout es)) ∧
      (t = true → Event.expire ∈ before .readTimedout es)
  | _ => Event.readAuthenticated ∉ es ∧ Event.readTimedout ∉ es

structure Writers (es : List Event) (s : State) : Prop where
  unstarted : s.waiter.isStarted = false → (∀ k, s.wakes k = none) ∧ s.countdown = .notStarted
  wakes : ∀ k a, Event.wake k a ∈ es ↔ (s.call (.wake k)).map ResumeCall.args = some (a, false)
  timedoutArg : ∀ k p, (s.call (.wake k)).map ResumeCall.args = some p → p.2 = false
  expire : Event.expire ∈ es ↔ s.call .countdown ≠ none
  assigned : ∀ f c, lastAssigner f es = some c → s.call c ≠ none
  authenticated : s.request.authenticated = true ↔ Approved es
  timedout : s.request.timedout = true ↔ TimedOut es
  pairRead : PairRead es s.waiter

variable {s s' : State} {es : List Event}

theorem PairRead.concat {w : Waiter} {e : Event} (h : PairRead es w) (ha : e ≠ .readAuthenticated)
    (ht : e ≠ .readTimedout) : PairRead (es ++ [e]) w := by
  cases w with
  | read a =>
    obtain ⟨h1, h2, h3, h4⟩ := h
    refine ⟨by simp [h1], by simp [h2, ht.symm], by rwa [before_concat_of_mem _ h1], ?_⟩
    intro hat
    obtain ⟨k, hk⟩ := h4 hat
    exact ⟨k, by simp [hk]⟩
  | answered a t =>
    obtain ⟨h1, h2, h3, h4, h5, h6⟩ := h
    rw [PairRead, before_concat_of_mem _ h1, before_concat_of_mem _ h2]
    exact ⟨by simp [h1], by simp [h2], h3, h4, h5, h6⟩
  | _ => exact ⟨by simp [h.1, ha.symm], by simp [h.2, ht.symm]⟩

/-! ## One event -/

theorem Writers.lastAssigner_unstarted (h : Writers es s) (hs : s.waiter.isStarted = false)
    (f : Assignment) : lastAssigner f es = none := by
  by_contra hne
  obtain ⟨c, hc⟩ := Option.ne_none_iff_exists'.mp hne
  exact h.assigned f c hc (call_eq_none h.unstarted hs c)

theorem approved_concat {e : Event} (h : assigner .authenticated e = none)
    (hw : ∀ k, lastAssigner .authenticated es = some (.wake k) → e ≠ .wake k true) :
    Approved (es ++ [e]) ↔ Approved es := by
  simp only [Approved, lastAssigner_concat, h, Option.none_or, List.mem_append, List.mem_singleton]
  refine exists_congr fun k => and_congr_right fun hk => or_iff_left ?_
  exact fun he => hw k hk he.symm

theorem timedOut_concat {e : Event} (h : assigner .timedout e = none) :
    TimedOut (es ++ [e]) ↔ TimedOut es := by
  simp only [TimedOut, lastAssigner_concat, h, Option.none_or]

theorem assigner_of_quiet {e : Event} (h : e.isQuiet = true) (f : Assignment) :
    assigner f e = none := by
  cases e <;> simp_all [Event.isQuiet, assigner]

theorem Writers.quiet {e : Event} (h : Writers es s) (hq : e.isQuiet = true)
    (he : step s e = some s') : Writers (es ++ [e]) s' := by
  have q : Quiet s s' := quiet_of_step he hq fun hs => (h.unstarted hs).2
  have hread : PairRead (es ++ [e]) s.waiter :=
    h.pairRead.concat (by rintro rfl; cases hq) (by rintro rfl; cases hq)
  have hnone {w : Waiter} (hw : w.isUnread = true ∨ w = .left) :
      PairRead (es ++ [e]) w ↔
        Event.readAuthenticated ∉ es ++ [e] ∧ Event.readTimedout ∉ es ++ [e] := by
    rcases hw with hw | rfl
    · cases w <;> first | rfl | cases hw
    · rfl
  refine ⟨?_, ?_, ?_, ?_, ?_, ?_, ?_, ?_⟩
  · intro hn
    obtain ⟨hs, hc⟩ := q.unstarted hn
    rw [q.wakes, hc]
    exact h.unstarted hs
  · intro k a
    have hne : Event.wake k a ≠ e := by rintro rfl; cases hq
    simp [hne, h.wakes, q.call_eq]
  · intro k
    rw [q.call_eq]
    exact h.timedoutArg k
  · have hne : Event.expire ≠ e := by rintro rfl; cases hq
    simp [hne, h.expire, q.call_eq]
  · intro f c hc
    rw [lastAssigner_concat, assigner_of_quiet hq, Option.none_or] at hc
    rw [q.call_eq]
    exact h.assigned f c hc
  · rw [approved_concat (assigner_of_quiet hq _) (by rintro k - rfl; cases hq)]
    rcases q.authenticated with ha | ⟨hs, ha⟩
    · rw [ha, h.authenticated]
    · simp [ha, Approved, h.lastAssigner_unstarted hs]
  · rw [timedOut_concat (assigner_of_quiet hq _)]
    rcases q.timedout with ht | ⟨hs, ht⟩
    · rw [ht, h.timedout]
    · simp [ht, TimedOut, h.lastAssigner_unstarted hs]
  · rcases q.waiter with hw | ⟨hw, hw'⟩ | ⟨hw, hw', _⟩
    · rwa [hw]
    · exact (hnone (.inl hw')).mpr ((hnone (.inl hw)).mp hread)
    · exact (hnone (.inr hw')).mpr ((hnone (.inl (by rw [hw]; rfl))).mp hread)

/-- A `wake` enters its call: it carries a pair from then on and has assigned nothing yet. -/
theorem Writers.wake {k : ℕ} {auth : Bool} (h : Writers es s) (he : step s (.wake k auth) = some s') :
    Writers (es ++ [.wake k auth]) s' := by
  obtain ⟨⟨hp, hk⟩, rfl⟩ := step_wake.mp he
  have hs := Waiter.isStarted_of_isPublished hp
  have hk' : s.call (.wake k) = none := hk
  have hself : State.call { s with wakes := Function.update s.wakes k (some (.enter auth false)) }
      (.wake k) = some (.enter auth false) := by simp [State.call]
  have hne : ∀ c, c ≠ .wake k →
      State.call { s with wakes := Function.update s.wakes k (some (.enter auth false)) } c =
        s.call c := fun c hc => s.advance_call_ne (.enter auth false) (.next .running) hc
  refine ⟨by simp [hs], ?_, ?_, ?_, ?_, ?_, ?_,
    h.pairRead.concat (e := .wake k auth) (by simp) (by simp)⟩
  · intro j a
    by_cases hj : j = k
    · subst hj
      have hno : Event.wake j a ∉ es := by simp [h.wakes, hk']
      rw [hself]
      simp [hno, ResumeCall.args, ResumeCall.enter, eq_comm]
    · rw [hne _ (by simpa using hj)]
      simp [hj, h.wakes]
  · intro j p hp
    by_cases hj : j = k
    · subst hj
      rw [hself] at hp
      cases hp
      rfl
    · rw [hne _ (by simpa using hj)] at hp
      exact h.timedoutArg j p hp
  · rw [hne _ (by simp)]
    simpa using h.expire
  · intro f c hc
    rw [lastAssigner_concat] at hc
    have := h.assigned f c (by simpa [assigner] using hc)
    rwa [hne c (by rintro rfl; exact this hk')]
  · rw [approved_concat rfl, h.authenticated]
    rintro j hj he
    cases he
    exact h.assigned _ _ hj hk'
  · rw [timedOut_concat rfl, h.timedout]

theorem Writers.expire_event (h : Writers es s) (he : step s .expire = some s') :
    Writers (es ++ [.expire]) s' := by
  obtain ⟨i, hi, _, rfl⟩ := step_expire.mp he
  have hs : s.waiter.isStarted = true := by
    by_contra hn
    rw [(h.unstarted (by simpa using hn)).2] at hi
    cases hi
  refine ⟨by simp [hs], ?_, h.timedoutArg, by simp [State.call], ?_, ?_, ?_,
    h.pairRead.concat (e := .expire) (by simp) (by simp)⟩
  · intro k a
    rw [List.mem_append, List.mem_singleton, or_iff_left (by simp)]
    exact h.wakes k a
  · intro f c hc
    rw [lastAssigner_concat] at hc
    have hne := h.assigned f c (by simpa [assigner] using hc)
    cases c with
    | wake j => exact hne
    | countdown => simp [State.call]
  · rw [approved_concat rfl (by simp), h.authenticated]
  · rw [timedOut_concat rfl, h.timedout]

/-- The values a caller carries: only a `wake` approves, only the countdown times out. -/
theorem Writers.args (h : Writers es s) {c : Caller} {r : ResumeCall} (hr : s.call c = some r) :
    (r.authenticated = true ↔ ∃ k, c = .wake k ∧ Event.wake k true ∈ es) ∧
      (r.timedout = true ↔ c = .countdown) := by
  cases c with
  | wake k =>
    have ht : r.timedout = false := h.timedoutArg k r.args (by rw [hr]; rfl)
    have hw : Event.wake k true ∈ es ↔ r.authenticated = true := by
      rw [h.wakes, hr]
      simp [ResumeCall.args, ht]
    simp [ht, hw]
  | countdown =>
    obtain ⟨pc, _, rfl⟩ := State.call_countdown hr
    simp

theorem Writers.assign {c : Caller} {f : Assignment} (h : Writers es s)
    (he : step s (.assign c f) = some s') : Writers (es ++ [.assign c f]) s' := by
  obtain ⟨r, hr, hpc, rfl⟩ := step_assign.mp he
  have hs : s.waiter.isStarted = true := by
    by_contra hn
    rw [call_eq_none h.unstarted (by simpa using hn)] at hr
    cases hr
  have hargs (d : Caller) := State.advance_args s f.after hr d
  have hcall (d : Caller) : (s.advance r c f.after).call d ≠ none ↔ s.call d ≠ none := by
    rw [ne_eq, ← Option.map_eq_none_iff (f := ResumeCall.args), hargs, Option.map_eq_none_iff]
  have hlast (g : Assignment) : lastAssigner g (es ++ [.assign c f]) =
      if f = g then some c else lastAssigner g es := by
    rw [lastAssigner_concat]
    by_cases hg : f = g <;> simp [assigner, hg]
  have hread : PairRead (es ++ [.assign c f]) s.waiter :=
    h.pairRead.concat (e := .assign c f) nofun nofun
  refine ⟨by simp [hs], ?_, ?_, ?_, ?_, ?_, ?_, by simpa using hread⟩
  · intro k a
    rw [List.mem_append, List.mem_singleton, or_iff_left nofun, h.wakes, ← hargs]
    rfl
  · intro k p hp
    exact h.timedoutArg k p ((hargs _).symm.trans hp)
  · rw [List.mem_append, List.mem_singleton, or_iff_left nofun, h.expire, ← hcall]
    rfl
  · intro g d hd
    refine (hcall d).mpr ?_
    rw [hlast] at hd
    split at hd
    · cases hd
      simp [hr]
    · exact h.assigned g d hd
  · simp only [AuthRequest.assign_authenticated, Approved, hlast]
    by_cases hf : f = .authenticated
    · simp [hf, (h.args hr).1]
    · simpa [hf, Approved] using h.authenticated
  · simp only [AuthRequest.assign_timedout, TimedOut, hlast]
    by_cases hf : f = .timedout
    · simp [hf, (h.args hr).2]
    · simpa [hf, TimedOut] using h.timedout

/-! ## The two reads -/

theorem Writers.reads {e : Event} {w : Waiter} (h : Writers es s) (hs : w.isStarted = true)
    (hr : e = .readAuthenticated ∨ e = .readTimedout) (hw : PairRead (es ++ [e]) w) :
    Writers (es ++ [e]) { s with waiter := w } := by
  have ha (f : Assignment) : assigner f e = none := by rcases hr with rfl | rfl <;> rfl
  have hl (f : Assignment) : lastAssigner f (es ++ [e]) = lastAssigner f es := by
    rw [lastAssigner_concat, ha, Option.none_or]
  refine ⟨by simp [hs], ?_, h.timedoutArg, ?_, ?_, ?_, ?_, hw⟩
  · intro k a
    rw [List.mem_append, List.mem_singleton, or_iff_left (by rcases hr with rfl | rfl <;> nofun)]
    exact h.wakes k a
  · rw [List.mem_append, List.mem_singleton, or_iff_left (by rcases hr with rfl | rfl <;> nofun)]
    exact h.expire
  · intro f c hc
    exact h.assigned f c (hl f ▸ hc)
  · rw [approved_concat (ha _) (by rcases hr with rfl | rfl <;> simp)]
    exact h.authenticated
  · rw [timedOut_concat (ha _)]
    exact h.timedout

theorem Writers.readAuthenticated (h : Writers es s) (he : step s .readAuthenticated = some s') :
    Writers (es ++ [.readAuthenticated]) s' := by
  obtain ⟨hw, rfl⟩ := whenever_eq_some.mp he
  obtain ⟨h1, h2⟩ : PairRead es .left := hw ▸ h.pairRead
  refine h.reads rfl (.inl rfl) ⟨by simp, by simp [h2], ?_, ?_⟩
  · rw [before_concat_self h1]
    exact h.authenticated
  · intro ha
    obtain ⟨k, _, hk⟩ := h.authenticated.mp ha
    exact ⟨k, by simp [hk]⟩

theorem Writers.readTimedout (h : Writers es s) (he : step s .readTimedout = some s') :
    Writers (es ++ [.readTimedout]) s' := by
  obtain ⟨a, ha, rfl⟩ := step_readTimedout.mp he
  obtain ⟨h1, h2, h3, h4⟩ : PairRead es (.read a) := ha ▸ h.pairRead
  refine h.reads rfl (.inr rfl) ⟨by simp [h1], by simp, ?_, ?_, ?_, ?_⟩
  · rwa [before_concat_of_mem _ h1]
  · rwa [before_concat_self h2]
  · rw [before_concat_self h2]
    exact h.timedout
  · intro ht
    rw [before_concat_self h2, h.expire]
    exact h.assigned _ _ (h.timedout.mp ht)

theorem writers_of_run (h : run step State.init es = some s) : Writers es s := by
  refine run_history (P := Writers) ?_ ?_ h
  · constructor <;> simp [State.init, State.call, AuthRequest.default, lastAssigner, Approved, TimedOut,
      PairRead]
  · intro es m e m' _ ih he
    cases e with
    | wake k auth => exact ih.wake he
    | expire => exact ih.expire_event he
    | assign c f => exact ih.assign he
    | readAuthenticated => exact ih.readAuthenticated he
    | readTimedout => exact ih.readTimedout he
    | _ => exact ih.quiet rfl he

/-! ## The pair that is read -/

/-- The two fields are not taken from an approving `wake` and from the countdown, and where neither
has been written by these, some `wake` has denied. -/
def Untorn (es : List Event) : Prop :=
  ¬ (Approved (before .readAuthenticated es) ∧ TimedOut (before .readTimedout es)) ∧
    (Approved (before .readAuthenticated es) ∨ TimedOut (before .readTimedout es) ∨
      ∃ k, Event.wake k false ∈ before .readTimedout es)

/-- The pair the request thread has read is the pair of one call made so far exactly when the schedule
is of neither torn kind. -/
theorem answer_mem_resumes_iff {a t : Bool} (h : run step State.init es = some s)
    (hw : s.waiter = .answered a t) : (a, t) ∈ resumes (before .readTimedout es) ↔ Untorn es := by
  obtain ⟨_, _, ha, hwake, ht, hexp⟩ : PairRead es (.answered a t) := hw ▸ (writers_of_run h).pairRead
  rw [mem_resumes, Untorn, ← ha, ← ht]
  cases a <;> cases t
  · simp
  · simpa using hexp
  · simpa using hwake
  · simp

def wholeWake : List Event :=
  pushed ++ [.wake 0 true, .assign (.wake 0) .running, .assign (.wake 0) .authenticated,
    .assign (.wake 0) .timedout, .poll, .readAuthenticated, .readTimedout]

theorem wholeWake_carried :
    (true, false) ∈ resumes (before .readTimedout wholeWake) ↔ Untorn wholeWake :=
  answer_mem_resumes_iff (Option.some_get (by decide : (run step State.init wholeWake).isSome)).symm
    (by rfl)

/-- The request thread slips in after `running = true`. -/
def earlyPoll : List Event :=
  pushed ++ [.wake 0 true, .assign (.wake 0) .running, .poll, .readAuthenticated, .readTimedout]

/-- The countdown writes between the two reads. -/
def lateExpiry : List Event :=
  pushed ++ [.wake 0 true, .assign (.wake 0) .running, .assign (.wake 0) .authenticated,
    .assign (.wake 0) .timedout, .poll, .expire, .readAuthenticated, .assign .countdown .running,
    .assign .countdown .authenticated, .assign .countdown .timedout, .readTimedout]

/-- An approval is read as a denial nobody made, and as an approval with the details `time_out`. -/
theorem torn_outcomes :
    ((run step State.init earlyPoll).map State.waiter = some (.answered false false) ∧
      (false, false) ∉ resumes earlyPoll) ∧
    ((run step State.init lateExpiry).map State.waiter = some (.answered true true) ∧
      (true, true) ∉ resumes lateExpiry) := by
  decide

end Auth8.Request
