import Auth8.Server.Delivery

/-! # Calls that end with an answer

`authenticate` and `wake` in every run of the server. A call ends without an answer where the device query
throws something unforeseen, where the push does, or where a `wake` finds nothing under its id. -/
namespace Auth8.Server
open EventRuns Persistent Jaxrs Request
set_option autoImplicit false

variable {s s' : State} {c w : ℕ} {args : Arguments} {auth : Bool} {id : String}

/-! ## The device of a request -/

/-- The call has constructed its `AuthRequest` and has not ended. -/
def AuthenticatePc.constructed : AuthenticatePc → Bool
  | .pause _ _ | .startCountdown _ _ | .generate _ _ | .put _ _ _ | .send _ _ | .sending _ | .wait _
  | .readAuthenticated _ | .readTimedout _ _ | .respond _ _ _ => true
  | _ => false

def HasDevice (s : State) : Prop :=
  ∀ c th, s.authenticates c = some th → th.pc.constructed = true → (s.requests c).device ≠ none

/-- No event takes the device of a request away. -/
def KeepsDevices (s s' : State) : Prop :=
  ∀ a, (s.requests a).device ≠ none → (s'.requests a).device ≠ none

theorem keepsDevices_of_eq (h : s'.requests = s.requests) : KeepsDevices s s' := by
  intro a ha
  rwa [h]

theorem keepsDevices_update {r : AuthRequest} (h : s'.requests = Function.update s.requests c r)
    (hr : (s.requests c).device ≠ none → r.device ≠ none) : KeepsDevices s s' := by
  intro a ha
  rw [h]
  by_cases hac : a = c
  · subst hac
    rw [Function.update_self]
    exact hr ha
  · rwa [Function.update_of_ne hac]

theorem HasDevice.keep (h : HasDevice s) (hkeep : KeepsDevices s s')
    (ha : s'.authenticates = s.authenticates) : HasDevice s' := by
  intro d th hd hp
  rw [ha] at hd
  exact hkeep d (h d th hd hp)

theorem HasDevice.move {q : AuthenticatePc} (h : HasDevice s) (hkeep : KeepsDevices s s')
    (ha : s'.authenticates = Function.update s.authenticates c (some ⟨args, q⟩))
    (hq : q.constructed = true → (s'.requests c).device ≠ none) : HasDevice s' := by
  intro d th hd hp
  by_cases hdc : d = c
  · subst hdc
    rw [ha, Function.update_self] at hd
    cases hd
    exact hq hp
  · rw [ha, Function.update_of_ne hdc] at hd
    exact hkeep d (h d th hd hp)

/-! ## The ends of the calls -/

/-- What a call that has ended has returned, or null or nothing. -/
def AuthenticatePc.result : AuthenticatePc → Option (Option Response)
  | .answered _ _ _ response | .failed _ response | .rejected response => some response
  | _ => none

def WakePc.result : WakePc → Option (Option Response)
  | .returned _ response => some (some response)
  | .threw => some none
  | _ => none

/-- A call that has not ended. -/
theorem answers_of_none {result : Option (Option Response)} (h : result = none)
    (response : Option Response) (hr : result = some response) : IsAnswer response := by
  rw [h] at hr
  cases hr

structure Answered (s : State) : Prop where
  authenticate : ∀ c th response, s.authenticates c = some th → th.pc.result = some response →
    IsAnswer response
  wake : ∀ w th response, s.wakes w = some th → th.pc.result = some response → IsAnswer response

theorem answered_authenticate {q : AuthenticatePc} (h : Answered s) (hw : s'.wakes = s.wakes)
    (ha : s'.authenticates = Function.update s.authenticates c (some ⟨args, q⟩)) :
    Answered s' ↔ ∀ response, q.result = some response → IsAnswer response := by
  constructor
  · intro h' response hq
    exact h'.authenticate c ⟨args, q⟩ response (by rw [ha, Function.update_self]) hq
  · intro hq
    refine ⟨fun d th response hd => ?_, fun v th response hv => h.wake v th response (hw ▸ hv)⟩
    exact forall_update (P := fun th => th.pc.result = some response → IsAnswer response) ha
      (hq response) (fun e th' _ he => h.authenticate e th' response he) d th hd

theorem answered_wake {q : WakePc} (h : Answered s) (ha : s'.authenticates = s.authenticates)
    (hw : s'.wakes = Function.update s.wakes w (some ⟨auth, id, q⟩)) :
    Answered s' ↔ ∀ response, q.result = some response → IsAnswer response := by
  constructor
  · intro h' response hq
    exact h'.wake w ⟨auth, id, q⟩ response (by rw [hw, Function.update_self]) hq
  · intro hq
    refine ⟨fun d th response hd => h.authenticate d th response (ha ▸ hd), fun v th response hv => ?_⟩
    exact forall_update (P := fun th => th.pc.result = some response → IsAnswer response) hw
      (hq response) (fun e th' _ he => h.wake e th' response he) v th hv

/-- The query for the device finds a row or none; the push is sent or ends in an `IOException`; and a
`wake` looks up an id that a call has put. -/
def Answerable (s : State) : Event → Prop
  | .lookup _ result => result ≠ .threw
  | .sendReturn _ exit => exit ≠ .exception
  | .runWake w => ∀ auth id ls, s.wakes w = some ⟨auth, id, .get ls⟩ → ∃ c, s.putIdOf c = some id
  | _ => True

/-! ## Steps -/

theorem isAnswer_answer {device : Option Device} (hd : device ≠ none) (a t : Bool) :
    IsAnswer (answer device a t) := by
  obtain ⟨device, rfl⟩ := Option.ne_none_iff_exists'.mp hd
  cases t <;> exact isAnswer_success _ _

/-- A position before the request is constructed says nothing about its device. -/
theorem of_not_constructed {q : AuthenticatePc} {P : Prop} (h : q.constructed = false)
    (hq : q.constructed = true) : P := by
  rw [h] at hq
  cases hq

/-- What the end of a call depends on, after an event of the call. -/
structure Moved (s s' : State) (c : ℕ) (args : Arguments) (q : AuthenticatePc) : Prop where
  authenticates : s'.authenticates = Function.update s.authenticates c (some ⟨args, q⟩)
  wakes : s'.wakes = s.wakes
  keeps : KeepsDevices s s'
  device : q.constructed = true → (s'.requests c).device ≠ none

theorem Moved.hasDevice {q : AuthenticatePc} (h : Moved s s' c args q) (hd : HasDevice s) :
    HasDevice s' := hd.move h.keeps h.authenticates h.device

theorem Moved.answered {q : AuthenticatePc} (h : Moved s s' c args q) (ha : Answered s) :
    Answered s' ↔ ∀ response, q.result = some response → IsAnswer response :=
  answered_authenticate ha h.wakes h.authenticates

/-- An event of the call that changes its position and nothing else the ends depend on. -/
theorem answered_set {m : State} {q : AuthenticatePc} {P : Prop} (hd : HasDevice s) (ha : Answered s)
    (hauth : m.authenticates = s.authenticates) (hw : m.wakes = s.wakes)
    (hr : m.requests = s.requests) (hq : q.constructed = true → (s.requests c).device ≠ none)
    (hP : (∀ response, q.result = some response → IsAnswer response) ↔ P) :
    HasDevice (m.setAuthenticate c args q) ∧ (Answered (m.setAuthenticate c args q) ↔ P) := by
  have hmoved : Moved s (m.setAuthenticate c args q) c args q := by
    refine ⟨?_, hw, keepsDevices_of_eq hr, fun hcons => ?_⟩
    · rw [← hauth]
      rfl
    · have hreq : (m.setAuthenticate c args q).requests = s.requests := hr
      rw [hreq]
      exact hq hcons
  exact ⟨hmoved.hasDevice hd, (hmoved.answered ha).trans hP⟩

theorem answered_running {m : State} {q : AuthenticatePc} {P : Prop} (hd : HasDevice s)
    (ha : Answered s) (hauth : m.authenticates = s.authenticates) (hw : m.wakes = s.wakes)
    (hr : m.requests = s.requests) (hq : q.constructed = true → (s.requests c).device ≠ none)
    (hrunning : q.result = none) (hP : P) :
    HasDevice (m.setAuthenticate c args q) ∧ (Answered (m.setAuthenticate c args q) ↔ P) :=
  answered_set hd ha hauth hw hr hq (iff_of_true (answers_of_none hrunning) hP)

/-- A statement of `authenticate` between the lookup and the end leaves the call running, or ends it with
an answer. -/
theorem stepAuthenticate_moved {p : AuthenticatePc} (hs : Inv s) (hd : HasDevice s)
    (hc : s.authenticates c = some ⟨args, p⟩) (h : stepAuthenticate s c args p = some s') :
    ∃ q, Moved s s' c args q ∧ ∀ response, q.result = some response → IsAnswer response := by
  have hself : p.constructed = true → (s.requests c).device ≠ none := hd c _ hc
  cases p with
  | getInstance device p =>
    obtain ⟨⟨g, x⟩, _, rfl⟩ := Option.map_eq_some_iff.mp h
    cases x with
    | inl p => exact ⟨_, ⟨rfl, rfl, keepsDevices_of_eq rfl, of_not_constructed rfl⟩, answers_of_none rfl⟩
    | inr ls => exact ⟨_, ⟨rfl, rfl, keepsDevices_of_eq rfl, of_not_constructed rfl⟩, answers_of_none rfl⟩
  | construct device ls =>
    cases h
    refine ⟨_, ⟨rfl, rfl, keepsDevices_update rfl fun _ => Option.some_ne_none device, fun _ => ?_⟩,
      answers_of_none rfl⟩
    rw [show (((s.setRequest c (.create args.timeout device)).setAuthenticate c args
      (.pause device ls)).requests c) = .create args.timeout device from Function.update_self ..]
    exact Option.some_ne_none device
  | pause device ls =>
    cases h
    refine ⟨_, ⟨rfl, rfl, keepsDevices_update rfl fun hdev => hdev, fun _ => ?_⟩,
      answers_of_none rfl⟩
    rw [show (((s.setRequest c (s.requests c).pause).setAuthenticate c args
      (.startCountdown device ls)).requests c) = (s.requests c).pause from Function.update_self ..]
    exact hself rfl
  | startCountdown device ls | readAuthenticated id | readTimedout id a =>
    cases h
    exact ⟨_, ⟨rfl, rfl, keepsDevices_of_eq rfl, fun _ => hself rfl⟩,
      answers_of_none rfl⟩
  | put device ls id =>
    cases ls with
    | none =>
      obtain ⟨hnone, hinst⟩ := hs.holds (.authenticate c) none (by rw [State.ls, hc]; rfl)
      exact absurd hnone.symm hinst
    | some ls =>
      cases h
      exact ⟨_, ⟨rfl, rfl, keepsDevices_of_eq rfl, fun _ => hself rfl⟩, answers_of_none rfl⟩
  | wait id =>
    cases h
    refine ⟨_, ⟨rfl, rfl, keepsDevices_of_eq rfl, fun _ => hself rfl⟩, ?_⟩
    split <;> exact answers_of_none rfl
  | respond id a t =>
    cases h
    refine ⟨_, ⟨rfl, rfl, keepsDevices_of_eq rfl, of_not_constructed rfl⟩, ?_⟩
    rintro response ⟨⟩
    exact isAnswer_answer (hself rfl) a t
  | _ => cases h

/-- A statement of `wake` leaves the call running or ends it with an answer, unless it is the lookup of
an id that no call has put. -/
theorem stepWake_moved {p : WakePc} (hs : Inv s) (hw : s.wakes w = some ⟨auth, id, p⟩)
    (h : stepWake s w auth id p = some s') :
    ∃ q, s'.wakes = Function.update s.wakes w (some ⟨auth, id, q⟩) ∧
      s'.authenticates = s.authenticates ∧ KeepsDevices s s' ∧
      ((∀ response, q.result = some response → IsAnswer response) ↔
        ∀ ls, p = .get ls → ∃ c, s.putIdOf c = some id) := by
  cases p with
  | getInstance p =>
    obtain ⟨⟨g, x⟩, _, rfl⟩ := Option.map_eq_some_iff.mp h
    refine ⟨_, rfl, rfl, keepsDevices_of_eq rfl, iff_of_true ?_ fun ls hget => ?_⟩
    · cases x <;> exact answers_of_none rfl
    · cases hget
  | get ls =>
    simp only [stepWake] at h
    cases hget : ls.bind (s.singleton.get · id) with
    | some a =>
      rw [hget] at h
      cases h
      obtain ⟨r, hr, ha⟩ := Option.bind_eq_some_iff.mp hget
      obtain ⟨hinst, _⟩ := hs.holds (.wake w) ls (by rw [State.ls, hw]; rfl)
      have hput : s.putIdOf a = some id := by
        refine (hs.registered id a).mp ?_
        rw [← ha, LazySingleton.get_inst (hinst.symm.trans hr)]
        rfl
      exact ⟨_, rfl, rfl, keepsDevices_of_eq rfl,
        iff_of_true (answers_of_none rfl) fun _ _ => ⟨a, hput⟩⟩
    | none =>
      rw [hget] at h
      cases h
      refine ⟨_, rfl, rfl, keepsDevices_of_eq rfl,
        iff_of_false (fun hans => not_isAnswer_none (hans none rfl)) fun hput => ?_⟩
      obtain ⟨c, hc⟩ := hput ls rfl
      have hfinds := hs.wake_finds hw hc
      simp only [step, hw, Option.bind_some, stepWake, hget] at hfinds
      have hpc := congrArg (fun m => m.wakes w) (Option.some.inj hfinds)
      simp [State.setWake] at hpc
  | resume a p =>
    cases p with
    | next f =>
      cases h
      refine ⟨_, rfl, rfl, keepsDevices_update rfl fun hdev => ?_,
        iff_of_true (answers_of_none rfl) fun ls hget => ?_⟩
      · cases f <;> exact hdev
      · cases hget
    | done =>
      cases h
      refine ⟨_, rfl, rfl, keepsDevices_of_eq rfl, iff_of_true ?_ fun ls hget => ?_⟩
      · rintro response ⟨⟩
        exact isAnswer_success _ _
      · cases hget
  | _ => cases h

theorem stepCountdown_moved {p : CountdownPc} (h : stepCountdown s c p = some s') :
    s'.authenticates = s.authenticates ∧ s'.wakes = s.wakes ∧ KeepsDevices s s' := by
  cases p with
  | notStarted => cases h
  | loop i =>
    cases h
    exact ⟨rfl, rfl, keepsDevices_of_eq rfl⟩
  | resume p =>
    cases p with
    | next f =>
      cases h
      refine ⟨rfl, rfl, keepsDevices_update rfl fun hdev => ?_⟩
      cases f <;> exact hdev
    | done => cases h

/-- Every call that has ended after the event has answered exactly where the event meets the condition. -/
theorem step_answered {e : Event} (hs : Inv s) (hd : HasDevice s) (ha : Answered s)
    (h : step s e = some s') : HasDevice s' ∧ (Answered s' ↔ Answerable s e) := by
  cases e with
  | authenticate c args =>
    obtain ⟨_, rfl⟩ := whenever_eq_some.mp h
    exact answered_running hd ha rfl rfl rfl (of_not_constructed rfl) rfl trivial
  | lookup c result =>
    simp only [step] at h
    split at h
    · next args hc =>
      cases result with
      | found device =>
        cases h
        exact answered_running hd ha rfl rfl rfl (of_not_constructed rfl) rfl (by rintro ⟨⟩)
      | empty =>
        cases h
        refine answered_set hd ha rfl rfl rfl (of_not_constructed rfl) (iff_of_true ?_ fun hexit => ?_)
        · rintro response ⟨⟩
          exact isAnswer_error _ _
        · cases hexit
      | threw =>
        cases h
        refine answered_set hd ha rfl rfl rfl (of_not_constructed rfl) (iff_of_false ?_ fun hne => hne rfl)
        exact fun hans => not_isAnswer_none (hans none rfl)
    · cases h
  | generate c uuid =>
    simp only [step] at h
    split at h
    · next args device ls hc =>
      obtain ⟨_, rfl⟩ := whenever_eq_some.mp h
      exact answered_running hd ha rfl rfl rfl (fun _ => hd c _ hc rfl) rfl trivial
    · cases h
  | send c published =>
    simp only [step] at h
    split at h
    · next args device id hc =>
      cases h
      exact answered_running hd ha rfl rfl rfl (fun _ => hd c _ hc rfl) rfl trivial
    · cases h
  | sendReturn c exit =>
    simp only [step] at h
    split at h
    · next args id hc =>
      cases exit with
      | returned =>
        cases h
        exact answered_running hd ha rfl rfl rfl (fun _ => hd c _ hc rfl) rfl (by rintro ⟨⟩)
      | ioException =>
        cases h
        refine answered_set hd ha rfl rfl rfl (of_not_constructed rfl) (iff_of_true ?_ fun hexit => ?_)
        · rintro response ⟨⟩
          exact isAnswer_error _ _
        · cases hexit
      | exception =>
        cases h
        refine answered_set hd ha rfl rfl rfl (of_not_constructed rfl) (iff_of_false ?_ fun hne => hne rfl)
        exact fun hans => not_isAnswer_none (hans none rfl)
    · cases h
  | run c =>
    obtain ⟨⟨args, p⟩, hc, h⟩ := Option.bind_eq_some_iff.mp h
    obtain ⟨q, hmoved, hq⟩ := stepAuthenticate_moved hs hd hc h
    exact ⟨hmoved.hasDevice hd, (hmoved.answered ha).trans (iff_of_true hq trivial)⟩
  | wake w auth requestId =>
    obtain ⟨_, rfl⟩ := whenever_eq_some.mp h
    have hwakes : (s.setWake w auth requestId (.getInstance .check)).wakes =
        Function.update s.wakes w (some ⟨auth, requestId, .getInstance .check⟩) := rfl
    have hans : Answered (s.setWake w auth requestId (.getInstance .check)) ↔ _ :=
      answered_wake ha rfl hwakes
    exact ⟨hd.keep (keepsDevices_of_eq rfl) rfl, hans.trans (iff_of_true (answers_of_none rfl) trivial)⟩
  | runWake w =>
    obtain ⟨⟨auth, requestId, p⟩, hw, h⟩ := Option.bind_eq_some_iff.mp h
    obtain ⟨q, hwakes, hauth, hkeep, hq⟩ := stepWake_moved hs hw h
    refine ⟨hd.keep hkeep hauth, (answered_wake ha hauth hwakes).trans (hq.trans ?_)⟩
    constructor
    · intro hput auth' id ls hget
      obtain ⟨rfl, rfl, rfl⟩ := (Wake.mk.injEq ..).mp (Option.some.inj (hw.symm.trans hget))
      exact hput ls rfl
    · rintro hput ls rfl
      exact hput auth requestId ls hw
  | tick c =>
    obtain ⟨hauth, hwakes, hkeep⟩ := stepCountdown_moved h
    refine ⟨hd.keep hkeep hauth, iff_of_true ?_ trivial⟩
    exact ⟨fun d th r hdd => ha.authenticate d th r (hauth ▸ hdd),
      fun v th r hv => ha.wake v th r (hwakes ▸ hv)⟩

/-! ## Runs -/

theorem answered_init : Answered .init := by
  constructor
  · intro c th response hc
    cases hc
  · intro w th response hw
    cases hw

theorem hasDevice_init : HasDevice .init := by
  intro c th hc
  cases hc

theorem answered_iff {es : List Event} (h : run step .init es = some s) :
    Along step Answerable .init es ↔
      ∀ pre m, pre <+: es → run step .init pre = some m → Answered m := by
  refine along_iff_invariant (I := fun m => Reachable step .init m ∧ HasDevice m) ?_ ?_
    ⟨.refl _, hasDevice_init⟩ answered_init h
  · rintro m e m' ⟨hreach, hd⟩ ha _ he
    exact ⟨hreach.tail he, (step_answered (reachable_inv hreach) hd ha he).1⟩
  · rintro m e m' ⟨hreach, hd⟩ ha he
    exact (step_answered (reachable_inv hreach) hd ha he).2

end Auth8.Server
