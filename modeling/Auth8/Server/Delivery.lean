import Auth8.Request.WakeUp
import Auth8.Server.Projection

/-! # A wake reaches the request that issued its id

The id of a push has been put by the call that drew it and by no other, so the `AuthRequest` a `wake`
finds under it is the one of that call; `wake` assigns to no other, and nobody else approves. -/
namespace Auth8.Server
open EventRuns Persistent Jaxrs Request
set_option autoImplicit false

variable {s s' : State} {c d w : ℕ} {auth : Bool} {id : String}

/-- The `wake` call has executed the assignment `f` of its `resumeThread` call on the request of `c`. -/
def Wake.hasAssigned (th : Wake) (c : ℕ) (f : Assignment) : Bool :=
  match th.call c with
  | some r => r.pc.past f
  | none => false

theorem Wake.target_of_call {th : Wake} {r : ResumeCall} (h : th.call c = some r) :
    th.pc.target = some c ∧ r.authenticated = th.auth := by
  obtain ⟨auth, requestId, p⟩ := th
  cases p with
  | resume a p =>
    simp only [Wake.call] at h
    split at h
    · next ha =>
      cases h
      exact ⟨congrArg some ha, rfl⟩
    · cases h
  | returned a response =>
    simp only [Wake.call] at h
    split at h
    · next ha =>
      cases h
      exact ⟨congrArg some ha, rfl⟩
    · cases h
  | _ => cases h

/-- A `wake` about to look up an id that the call `c` has put finds the request of `c`. -/
theorem Inv.wake_finds (hs : Inv s) {ls : Option ℕ} (hw : s.wakes w = some ⟨auth, id, .get ls⟩)
    (hc : s.putIdOf c = some id) :
    step s (.runWake w) = some (s.setWake w auth id (.resume c (.next .running))) := by
  obtain ⟨hinst, hn⟩ := hs.holds (.wake w) ls (by rw [State.ls, hw]; rfl)
  obtain ⟨r, hr⟩ := Option.ne_none_iff_exists'.mp hn
  have hget : s.singleton.get r id = some c := by
    rw [LazySingleton.get_inst hr]
    exact (hs.registered id c).mpr hc
  simp [step, hw, stepWake, hinst, hr, hget]

theorem stepWake_requests {p : WakePc} (h : stepWake s w auth id p = some s')
    (hd : s'.requests d ≠ s.requests d) : p.target = some d := by
  cases p with
  | getInstance p =>
    obtain ⟨⟨g, x⟩, _, rfl⟩ := Option.map_eq_some_iff.mp h
    exact absurd rfl hd
  | get ls =>
    simp only [stepWake] at h
    split at h <;> cases h <;> exact absurd rfl hd
  | resume a p =>
    cases p with
    | done =>
      cases h
      exact absurd rfl hd
    | next f =>
      cases h
      by_cases ha : d = a
      · rw [ha]
        rfl
      · exact absurd (Function.update_of_ne ha _ _) hd
  | _ => cases h

theorem Inv.target_id (hs : Inv s) {th : Wake} (hw : s.wakes w = some th)
    (ht : th.pc.target = some c) : s.putIdOf c = some th.requestId :=
  (hs.registered _ _).mp (hs.target w th c hw ht)

theorem Inv.read_of_answer (hs : Inv s) {args : Arguments} {a t : Bool} {details : Value}
    (hc : s.authenticates c = some ⟨args, .answered id a t
      (some (Success.response none (some [("authenticated", .bool true), ("details", details)])))⟩) :
    a = true := by
  obtain ⟨device, hr⟩ := hs.answered c args id a t _ hc
  cases t <;> cases device <;> simp_all [answer, Success.response]

/-- Every `wake` for the id of a push finds the request of the call that issued the id, a `wake` changes
no other request, and a call answers `authenticated = true` only after a `wake(true, id)` for its id. -/
theorem wake_delivered (h : Reachable step .init s) :
    (∀ w auth id ls, s.wakes w = some ⟨auth, id, .get ls⟩ → (∃ p ∈ s.pushes, p.requestId = id) →
      ∃ c s', s.putIdOf c = some id ∧ (∀ d, s.idOf d = some id → d = c) ∧
        step s (.runWake w) = some s' ∧
        s'.wakes w = some ⟨auth, id, .resume c (.next .running)⟩) ∧
    (∀ w th s' d, s.wakes w = some th → step s (.runWake w) = some s' →
      s'.requests d ≠ s.requests d → s.putIdOf d = some th.requestId) ∧
    ∀ c args id a t details, s.authenticates c = some ⟨args, .answered id a t (some
        (Success.response none (some [("authenticated", .bool true), ("details", details)])))⟩ →
      ∃ w th, s.wakes w = some th ∧ th.auth = true ∧ th.requestId = id ∧
        th.hasAssigned c .authenticated = true := by
  have hs := reachable_inv h
  refine ⟨?_, ?_, ?_⟩
  · rintro w auth id ls hw ⟨p, hp, rfl⟩
    obtain ⟨c, hc⟩ := hs.pushed p hp
    refine ⟨c, _, hc, ?_, hs.wake_finds hw hc, by simp [State.setWake]⟩
    intro d hd
    obtain ⟨th, hth, hpt⟩ := Option.bind_eq_some_iff.mp hc
    have hidc : s.idOf c = some p.requestId :=
      Option.bind_eq_some_iff.mpr ⟨th, hth, AuthenticatePc.id_of_putId hpt⟩
    exact hs.distinct d c _ hd hidc
  · intro w th s' d hw he hd
    obtain ⟨th', hth, he⟩ := Option.bind_eq_some_iff.mp he
    obtain rfl := Option.some.inj (hw.symm.trans hth)
    exact hs.target_id hw (stepWake_requests he hd)
  · intro c args id a t details hc
    obtain rfl := hs.read_of_answer hc
    have hread : (project c s).waiter.hasApproval = true := by
      rw [project_waiter s hc]
      rfl
    obtain ⟨w, r, hr, hauth, hpast⟩ := (awake_of_reachable (project_of_init h c)).read hread
    obtain ⟨th, hth, hcall⟩ := Option.bind_eq_some_iff.mp hr
    obtain ⟨htarget, ha⟩ := Wake.target_of_call hcall
    have hid : s.putIdOf c = some th.requestId := hs.target_id hth htarget
    have hid' : s.putIdOf c = some id := by
      rw [State.putIdOf, hc]
      rfl
    refine ⟨w, th, hth, ha ▸ hauth, Option.some.inj (hid.symm.trans hid'), ?_⟩
    rw [Wake.hasAssigned, hcall]
    exact hpast

theorem approval_delivered :
    ∃ w th, ((run step .init approval).get (by decide)).wakes w = some th ∧ th.auth = true ∧
      th.requestId = firstId ∧ th.hasAssigned 0 .authenticated = true :=
  (wake_delivered ⟨approval, (Option.some_get _).symm⟩).2.2 0 _ firstId true false (.str "phone") (by rfl)

end Auth8.Server
