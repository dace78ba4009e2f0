import Auth8.Server.Pushes

/-! # Before, in and after `sendMessage`

A call enters and leaves `sendMessage`, and a push goes out, in no events but the two of the method. -/
namespace Auth8.Server
open EventRuns Persistent Jaxrs Request
set_option autoImplicit false

/-- The call is in `SNSMobilePush.sendMessage`. -/
def AuthenticatePc.isSending : AuthenticatePc → Bool
  | .send _ _ | .sending _ => true
  | _ => false

/-- The call has come past the publication in `sendMessage`, and has not failed there. -/
def AuthenticatePc.hasSent : AuthenticatePc → Bool
  | .sending _ | .wait _ | .readAuthenticated _ | .readTimedout _ _ | .respond _ _ _
  | .answered _ _ _ _ => true
  | _ => false

def isSend : Event → Bool
  | .send _ _ | .sendReturn _ _ => true
  | _ => false

/-- What becomes of a call in an event that is none of `sendMessage`. -/
inductive Apart : Option Authenticate → Option Authenticate → Prop where
  | same (th : Option Authenticate) : Apart th th
  | arrives (args : Arguments) : Apart none (some ⟨args, .lookup⟩)
  | moves (args : Arguments) (p q : AuthenticatePc) (hp : p.isSending = false)
      (hsent : q.hasSent = p.hasSent)
      (hput : ∀ id, p.putId = some id → q.putId = some id ∧ q.isSending = false) :
      Apart (some ⟨args, p⟩) (some ⟨args, q⟩)

structure Others (s s' : State) : Prop where
  pushes : s'.pushes = s.pushes
  calls : ∀ c, Apart (s.authenticates c) (s'.authenticates c)

variable {s s' : State} {c : ℕ} {args : Arguments} {p q : AuthenticatePc}

theorem others_of_eq (ha : s'.authenticates = s.authenticates) (hp : s'.pushes = s.pushes) :
    Others s s' := by
  refine ⟨hp, fun c => ?_⟩
  rw [ha]
  exact .same _

theorem others_of_update {th : Authenticate}
    (ha : s'.authenticates = Function.update s.authenticates c (some th))
    (hth : Apart (s.authenticates c) (some th)) (hp : s'.pushes = s.pushes) : Others s s' := by
  refine ⟨hp, fun d => ?_⟩
  rw [ha]
  by_cases hd : d = c
  · rw [hd, Function.update_self]
    exact hth
  · rw [Function.update_of_ne hd]
    exact .same _

/-- A move before the id is put. -/
theorem others_of_before (hc : s.authenticates c = some ⟨args, p⟩)
    (ha : s'.authenticates = Function.update s.authenticates c (some ⟨args, q⟩))
    (hp : s'.pushes = s.pushes) (hput : p.putId = none) (hq : q.hasSent = false) : Others s s' := by
  refine others_of_update ha ?_ hp
  rw [hc]
  refine .moves args p q ?_ ?_ (fun id h => ?_)
  · cases p <;> first | rfl | cases hput
  · rw [hq]
    cases p <;> first | rfl | cases hput
  · rw [hput] at h
    cases h

/-- A move after `sendMessage` has returned. -/
theorem others_of_after (hc : s.authenticates c = some ⟨args, p⟩)
    (ha : s'.authenticates = Function.update s.authenticates c (some ⟨args, q⟩))
    (hp : s'.pushes = s.pushes) (hsending : p.isSending = false) (hsent : q.hasSent = p.hasSent)
    (hput : q.putId = p.putId) (hq : q.isSending = false) : Others s s' := by
  refine others_of_update ha ?_ hp
  rw [hc]
  exact .moves args p q hsending hsent fun id h => ⟨hput.trans h, hq⟩

theorem stepAuthenticate_others (hc : s.authenticates c = some ⟨args, p⟩)
    (h : stepAuthenticate s c args p = some s') : Others s s' := by
  cases p with
  | getInstance device p =>
    obtain ⟨⟨g, x⟩, _, rfl⟩ := Option.map_eq_some_iff.mp h
    exact others_of_before hc rfl rfl rfl (by cases x <;> rfl)
  | put device ls id =>
    cases ls <;> cases h <;> exact others_of_before hc rfl rfl rfl rfl
  | construct device ls | pause device ls | startCountdown device ls =>
    cases h
    exact others_of_before hc rfl rfl rfl rfl
  | wait id =>
    cases h
    refine others_of_after hc rfl rfl rfl ?_ ?_ ?_ <;> split <;> rfl
  | readAuthenticated id | readTimedout id a | respond id a t =>
    cases h
    exact others_of_after hc rfl rfl rfl rfl rfl rfl
  | _ => cases h

theorem step_others {e : Event} (h : step s e = some s') (he : isSend e = false) : Others s s' := by
  cases e with
  | authenticate c args =>
    obtain ⟨hc, rfl⟩ := whenever_eq_some.mp h
    refine others_of_update rfl ?_ rfl
    rw [hc]
    exact .arrives args
  | lookup c result =>
    simp only [step] at h
    split at h
    · next args hc =>
      cases h
      exact others_of_before hc rfl rfl rfl (by cases result <;> rfl)
    · cases h
  | generate c uuid =>
    simp only [step] at h
    split at h
    · next args device ls hc =>
      obtain ⟨_, rfl⟩ := whenever_eq_some.mp h
      exact others_of_before hc rfl rfl rfl rfl
    · cases h
  | send c published => cases he
  | sendReturn c exit => cases he
  | run c =>
    obtain ⟨⟨args, p⟩, hc, h⟩ := Option.bind_eq_some_iff.mp h
    exact stepAuthenticate_others hc h
  | wake w auth requestId =>
    obtain ⟨_, rfl⟩ := whenever_eq_some.mp h
    exact others_of_eq rfl rfl
  | runWake w =>
    obtain ⟨_, _, h⟩ := Option.bind_eq_some_iff.mp h
    exact others_of_eq (stepWake_calls h).1 (stepWake_calls h).2
  | tick c => exact others_of_eq (stepCountdown_calls h).1 (stepCountdown_calls h).2

end Auth8.Server
