import Auth8.Server.Delivery
import Mathlib.Data.Finset.Card

/-! # What the request map holds

Nothing in the code removes an entry: the map holds the id of every call that has ever put one, and a
`wake` for the id of a call that has returned is answered like any other. -/
namespace Auth8.Server
open EventRuns Persistent Jaxrs Request
set_option autoImplicit false

variable {s s' : State} {c w : ℕ} {auth : Bool} {id : String}

def AuthenticatePc.hasReturned : AuthenticatePc → Bool
  | .answered _ _ _ _ | .failed _ _ | .rejected _ => true
  | _ => false

/-- A call that has put the id has not returned yet. -/
def State.InFlight (s : State) (id : String) : Prop :=
  ∃ c th, s.authenticates c = some th ∧ th.pc.putId = some id ∧ th.pc.hasReturned = false

theorem Move.putId_mono {p q : AuthenticatePc} (hm : Move c s s' p q) (h : p.putId = some id) :
    q.putId = some id := by
  cases hm with
  | own p q _ _ _ _ _ _ hput _ => rw [hput, h]
  | getInstance | generate | put => cases h
  | send device i => exact h

theorem step_putId_mono {e : Event} (he : step s e = some s') (h : s.putIdOf c = some id) :
    s'.putIdOf c = some id := by
  cases step_effect he with
  | authenticate d args p q hpc ha hw hm =>
    have hat := at_of_update hpc ha hw
    rw [hat.putId]
    split
    · next hc =>
      rw [hc, hat.putId_self] at h
      exact hm.putId_mono h
    · exact h
  | wakeArrives _ _ _ _ _ ha => rwa [State.putIdOf, ha]
  | wake _ _ _ _ _ _ _ ha => rwa [State.putIdOf, ha]
  | tick _ ha => rwa [State.putIdOf, ha]

theorem putId_mono (h' : Reachable step s s') (h : s.putIdOf c = some id) : s'.putIdOf c = some id :=
  h'.induct (P := fun m => m.putIdOf c = some id) h fun _ _ _ _ hm he => step_putId_mono he hm

theorem Inv.mem_requestMap (hs : Inv s) : id ∈ s.requestMap ↔ ∃ c, s.putIdOf c = some id := by
  rw [← AList.lookup_isSome, Option.isSome_iff_exists]
  exact exists_congr fun c => hs.registered id c

def State.calls (s : State) : List ℕ := s.requestMap.entries.map Sigma.snd

theorem Inv.mem_calls (hs : Inv s) : c ∈ s.calls ↔ s.putIdOf c ≠ none := by
  rw [State.calls, List.mem_map, Option.ne_none_iff_exists']
  constructor
  · rintro ⟨⟨i, d⟩, hmem, rfl⟩
    exact ⟨i, (hs.registered i d).mp (AList.mem_lookup_iff.mpr hmem)⟩
  · rintro ⟨i, hi⟩
    exact ⟨⟨i, c⟩, AList.mem_lookup_iff.mp ((hs.registered i c).mpr hi), rfl⟩

theorem Inv.calls_nodup (hs : Inv s) : s.calls.Nodup := by
  refine List.Nodup.map_on ?_ s.requestMap.nodupKeys.nodup
  rintro ⟨i, c⟩ hi ⟨j, d⟩ hj (rfl : c = d)
  have hi' := (hs.registered i c).mp (AList.mem_lookup_iff.mpr hi)
  have hj' := (hs.registered j c).mp (AList.mem_lookup_iff.mpr hj)
  obtain rfl : i = j := Option.some.inj (hi'.symm.trans hj')
  rfl

theorem runWake_next {a : ℕ} {f : Assignment}
    (hw : s.wakes w = some ⟨auth, id, .resume a (.next f)⟩) :
    ∃ s', step s (.runWake w) = some s' ∧ s'.wakes w = some ⟨auth, id, .resume a f.after⟩ := by
  refine ⟨(s.setRequest a ((s.requests a).assign auth false f)).setWake w auth id (.resume a f.after),
    ?_, Function.update_self ..⟩
  rw [step, hw]
  rfl

theorem runWake_done {a : ℕ} (hw : s.wakes w = some ⟨auth, id, .resume a .done⟩) :
    ∃ s', step s (.runWake w) = some s' ∧
      s'.wakes w = some ⟨auth, id, .returned a (Success.response (some "OK") (some []))⟩ := by
  refine ⟨s.setWake w auth id (.returned a (Success.response (some "OK") (some []))), ?_,
    Function.update_self ..⟩
  rw [step, hw]
  rfl

/-- The rest of a `wake` call that has found the request of `c`, when nobody interferes. -/
theorem wake_answers_ok {a : ℕ} (hw : s.wakes w = some ⟨auth, id, .resume a (.next .running)⟩) :
    ∃ s', run step s (List.replicate 4 (.runWake w)) = some s' ∧
      s'.wakes w = some ⟨auth, id, .returned a (Success.response (some "OK") (some []))⟩ := by
  obtain ⟨s₁, hrunning, hw₁⟩ := runWake_next hw
  obtain ⟨s₂, hauthenticated, hw₂⟩ := runWake_next hw₁
  obtain ⟨s₃, htimedout, hw₃⟩ := runWake_next hw₂
  obtain ⟨s₄, hreturned, hw₄⟩ := runWake_done hw₃
  refine ⟨s₄, ?_, hw₄⟩
  simp only [List.replicate, run_cons, hrunning, hauthenticated, htimedout, hreturned,
    Option.bind_some, run_nil]

/-- The keys of the request map are the ids that have been put, by calls still running or not; an id
that is in the map stays there and a `wake` for it is accepted; the map is as large as the number of
calls that have put an id. -/
theorem registry_holds_every_put (h : Reachable step .init s) :
    (∀ id, id ∈ s.requestMap ↔ ∃ c, s.putIdOf c = some id) ∧
    (∀ s' id, Reachable step s s' → id ∈ s.requestMap → id ∈ s'.requestMap) ∧
    (∀ id w auth ls, id ∈ s.requestMap → s.wakes w = some ⟨auth, id, .get ls⟩ →
      ∃ c s', s.putIdOf c = some id ∧ run step s (List.replicate 5 (.runWake w)) = some s' ∧
        s'.wakes w = some ⟨auth, id, .returned c (Success.response (some "OK") (some []))⟩) ∧
    ∃ calls : Finset ℕ, (∀ c, c ∈ calls ↔ s.putIdOf c ≠ none) ∧
      s.requestMap.keys.length = calls.card := by
  have hs := reachable_inv h
  refine ⟨fun _ => hs.mem_requestMap, ?_, ?_, ?_⟩
  · intro s' id h' hid
    obtain ⟨c, hc⟩ := hs.mem_requestMap.mp hid
    exact (reachable_inv (h.trans h')).mem_requestMap.mpr ⟨c, putId_mono h' hc⟩
  · intro id w auth ls hid hw
    obtain ⟨c, hc⟩ := hs.mem_requestMap.mp hid
    have hfound : (s.setWake w auth id (.resume c (.next .running))).wakes w =
        some ⟨auth, id, .resume c (.next .running)⟩ := by simp [State.setWake]
    obtain ⟨s', hrun, hs'⟩ := wake_answers_ok hfound
    refine ⟨c, s', hc, ?_, hs'⟩
    rw [List.replicate_succ, run_cons, hs.wake_finds hw hc]
    exact hrun
  · refine ⟨s.calls.toFinset, fun c => by rw [List.mem_toFinset]; exact hs.mem_calls, ?_⟩
    rw [List.toFinset_card_of_nodup hs.calls_nodup, State.calls, AList.keys, List.keys,
      List.length_map, List.length_map]

theorem approval_registry :
    firstId ∈ ((run step .init approval).get (by decide)).requestMap :=
  (((registry_holds_every_put ⟨approval, (Option.some_get _).symm⟩).1 firstId).mpr ⟨0, by rfl⟩)

/-- The call that has put the id has returned; the id is still a key, and a `wake` for it is answered
`OK`. -/
theorem returned_call_registered :
    (∃ s, run step .init approval = some s ∧ firstId ∈ s.requestMap ∧ ¬ s.InFlight firstId) ∧
    (run step .init (approval ++ [.wake 1 false firstId] ++ List.replicate 7 (.runWake 1))).map
        (fun s => s.wakes 1) =
      some (some ⟨false, firstId, .returned 0 (Success.response (some "OK") (some []))⟩) := by
  refine ⟨?_, by decide⟩
  have hrun : run step .init approval = some ((run step .init approval).get (by decide)) :=
    (Option.some_get _).symm
  refine ⟨_, hrun, by decide, ?_⟩
  rintro ⟨c, th, hc, hput, hret⟩
  have hs := reachable_inv ⟨approval, hrun⟩
  -- only call 0 has put the id
  have hc0 : c = 0 := by
    refine hs.distinct c 0 firstId ?_ (by rfl)
    exact Option.bind_eq_some_iff.mpr ⟨th, hc, AuthenticatePc.id_of_putId hput⟩
  have hdone : ∀ th, ((run step .init approval).get (by decide)).authenticates 0 = some th →
      th.pc.hasReturned = true := by decide
  rw [hdone th (hc0 ▸ hc)] at hret
  cases hret

end Auth8.Server
