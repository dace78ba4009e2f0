import Auth8.Aws.SnsMobilePush
import Auth8.Foundations.EventRuns
import Mathlib.Data.Finset.Basic
import Mathlib.Logic.Function.Basic

/-! # Concurrent pushes

Any number of `sendMessage` calls on one service, interleaved between their remote calls. All of them
create, use and delete the same application, so a deletion is safe exactly while no other call is
between its creation and its publication. -/
namespace Auth8.Aws
open EventRuns Persistent
set_option autoImplicit false

structure PushCall where
  device : Device
  requestId : String
  payload : List (String × String)
  pc : DemoPc
  deriving DecidableEq, Repr

structure PushState (σ : Type) where
  service : σ
  calls : ℕ → Option PushCall

inductive PushEvent where
  | send (i : ℕ) (device : Device) (requestId : String) (payload : List (String × String))
  /-- the next remote call of the call `i` -/
  | run (i : ℕ)
  deriving DecidableEq, Repr

def PushState.init {σ : Type} (service : σ) : PushState σ := ⟨service, fun _ => none⟩

section
variable {σ : Type} (sns : AmazonSNS σ) (jsonify : Json → Option String) (serverAPIKey : String)

def pushStep (s : PushState σ) : PushEvent → Option (PushState σ)
  | .send i device requestId payload =>
    whenever (s.calls i = none)
      { s with
        calls := Function.update s.calls i (some ⟨device, requestId, payload, .createApplication⟩) }
  | .run i =>
    (s.calls i).bind fun c =>
      ((demoAndroidAppNotification serverAPIKey c.device c.requestId c.payload).step sns jsonify
        s.service c.pc).map fun (pc, service) =>
          { service := service, calls := Function.update s.calls i (some { c with pc := pc }) }

end

/-- The application a call is going to use. -/
def DemoPc.pending : DemoPc → Option String
  | .createEndpoint arn | .publish arn _ => some arn
  | _ => none

def DemoPc.created : DemoPc → Option String
  | .deleteApplication arn _ => some arn
  | pc => pc.pending

def DemoPc.isDelete : DemoPc → Bool
  | .deleteApplication _ _ => true
  | _ => false

theorem DemoPc.created_of_pending {pc : DemoPc} {arn : String} (h : pc.pending = some arn) :
    pc.created = some arn := by
  cases pc <;> first | exact h | cases h

section
variable {σ : Type} {sns : AmazonSNS σ} {jsonify : Json → Option String} {serverAPIKey : String}
variable {s s' : PushState σ} {i : ℕ}

/-- A deletion while no other call is between its creation and its publication. -/
def Undisturbing (s : PushState σ) : PushEvent → Prop
  | .send _ _ _ _ => True
  | .run i => ∀ c, s.calls i = some c → c.pc.isDelete = true →
      ∀ j d, j ≠ i → s.calls j = some d → d.pc.pending = none

/-- The call has not failed, and finds its application while it still needs it. -/
def CallSafe (A : Applications sns) (m : σ) (c : PushCall) : Prop :=
  c.pc ≠ .threw ∧ ∀ arn, c.pc.pending = some arn → A.live m arn

def Safe (A : Applications sns) (s : PushState σ) : Prop :=
  ∀ i c, s.calls i = some c → CallSafe A s.service c

def auth8Arn (A : Applications sns) (serverAPIKey : String) : String :=
  A.arn (createPlatformApplication "Auth8" .GCM "" serverAPIKey)

/-- The call works on that application, and its endpoint belongs to it. -/
def OnAuth8 (A : Applications sns) (serverAPIKey : String) (c : PushCall) : Prop :=
  (∀ arn, c.pc.created = some arn → arn = auth8Arn A serverAPIKey) ∧
    ∀ arn e, c.pc = .publish arn e → A.applicationArn e = arn

def SameApplication (A : Applications sns) (serverAPIKey : String) (s : PushState σ) : Prop :=
  ∀ i c, s.calls i = some c → OnAuth8 A serverAPIKey c

/-! ## One remote call -/

/-- What a remote call can do: the positions before and after it, and the applications left. -/
inductive Remote (A : Applications sns) (serverAPIKey : String) (m m' : σ) : DemoPc → DemoPc → Prop where
  | create (hlive : ∀ a, A.live m' a ↔ a = auth8Arn A serverAPIKey ∨ A.live m a) :
      Remote A serverAPIKey m m' .createApplication (.createEndpoint (auth8Arn A serverAPIKey))
  | endpoint (arn e : String) (hok : A.live m arn) (he : A.applicationArn e = arn)
      (hlive : ∀ a, A.live m' a ↔ A.live m a) :
      Remote A serverAPIKey m m' (.createEndpoint arn) (.publish arn e)
  | publish (arn e messageId : String) (hok : A.live m (A.applicationArn e))
      (hlive : ∀ a, A.live m' a ↔ A.live m a) :
      Remote A serverAPIKey m m' (.publish arn e) (.deleteApplication arn messageId)
  | endpointThrew (arn : String) (hno : ¬ A.live m arn) :
      Remote A serverAPIKey m m' (.createEndpoint arn) .threw
  | publishThrew (arn e : String) (hno : ¬ A.live m (A.applicationArn e)) :
      Remote A serverAPIKey m m' (.publish arn e) .threw
  | delete (arn messageId : String) (hlive : ∀ a, A.live m' a ↔ A.live m a ∧ a ≠ arn) :
      Remote A serverAPIKey m m' (.deleteApplication arn messageId) (.returned messageId)

theorem remote_of_step (A : Applications sns) (hjson : ∀ j, jsonify j ≠ none) {device : Device}
    {requestId : String} {payload : List (String × String)} {m m' : σ} {pc q : DemoPc}
    (h : (demoAndroidAppNotification serverAPIKey device requestId payload).step sns jsonify m pc =
      some (q, m')) : Remote A serverAPIKey m m' pc q := by
  cases pc with
  | createApplication =>
    obtain ⟨rfl, ⟨arn, harn, rfl⟩ | ⟨hnone, rfl⟩⟩ := DemoPc.after_eq (Option.some.inj h)
    · rw [A.create_arn] at harn
      cases harn
      exact .create (A.create_live _ m)
    · rw [A.create_arn] at hnone
      cases hnone
  | createEndpoint arn =>
    obtain ⟨r, hr, rfl⟩ : ∃ r, (demoAndroidAppNotification serverAPIKey device requestId
        payload).endpoint arn = some r ∧ r.platformApplicationArn = arn := ⟨_, rfl, rfl⟩
    rw [DemoNotification.step, hr] at h
    obtain ⟨rfl, ⟨e, he, rfl⟩ | ⟨hnone, rfl⟩⟩ := DemoPc.after_eq (Option.some.inj h)
    · exact .endpoint _ e ((A.endpoint_isSome r m).mp (by rw [he]; rfl)) (A.endpoint_arn r m e he)
        (A.endpoint_live r m)
    · refine .endpointThrew _ fun hlive => ?_
      have := (A.endpoint_isSome r m).mpr hlive
      rw [hnone] at this
      cases this
  | publish arn e =>
    obtain ⟨r, hr, htarget⟩ := publish_request jsonify hjson e .GCM attributesMap requestId payload
    rw [DemoNotification.step, DemoNotification.message] at h
    simp only [demoAndroidAppNotification, hr] at h
    obtain ⟨rfl, ⟨messageId, hid, rfl⟩ | ⟨hnone, rfl⟩⟩ := DemoPc.after_eq (Option.some.inj h)
    · refine .publish arn e messageId ?_ (A.publish_live r m)
      rw [← htarget]
      exact (A.publish_isSome r m).mp (by rw [hid]; rfl)
    · refine .publishThrew arn e fun hlive => ?_
      have := (A.publish_isSome r m).mpr (htarget ▸ hlive)
      rw [hnone] at this
      cases this
  | deleteApplication arn messageId =>
    obtain ⟨rfl, ⟨_, _, rfl⟩ | ⟨hnone, rfl⟩⟩ := DemoPc.after_eq (Option.some.inj h)
    · exact .delete arn messageId (A.delete_live arn m)
    · have := A.delete_isSome arn m
      rw [hnone] at this
      cases this
  | returned messageId => cases h
  | threw => cases h

theorem push_cases (A : Applications sns) (hjson : ∀ j, jsonify j ≠ none) {e : PushEvent}
    (h : pushStep sns jsonify serverAPIKey s e = some s') :
    (∃ i device requestId payload, e = .send i device requestId payload ∧ s'.service = s.service ∧
      s'.calls = Function.update s.calls i (some ⟨device, requestId, payload, .createApplication⟩)) ∨
    ∃ i c q, e = .run i ∧ s.calls i = some c ∧
      s'.calls = Function.update s.calls i (some { c with pc := q }) ∧
      Remote A serverAPIKey s.service s'.service c.pc q := by
  cases e with
  | send i device requestId payload =>
    obtain ⟨_, rfl⟩ := whenever_eq_some.mp h
    exact .inl ⟨i, device, requestId, payload, rfl, rfl, rfl⟩
  | run i =>
    obtain ⟨c, hc, h⟩ := Option.bind_eq_some_iff.mp h
    obtain ⟨⟨q, m⟩, hq, rfl⟩ := Option.map_eq_some_iff.mp h
    exact .inr ⟨i, c, q, rfl, hc, rfl, remote_of_step A hjson hq⟩

theorem sameApplication_of_step (A : Applications sns) (hjson : ∀ j, jsonify j ≠ none)
    {e : PushEvent} (hI : SameApplication A serverAPIKey s)
    (h : pushStep sns jsonify serverAPIKey s e = some s') : SameApplication A serverAPIKey s' := by
  rcases push_cases A hjson h with ⟨i, device, requestId, payload, _, _, hs'⟩ | ⟨i, c, q, _, hc, hs', hr⟩
  · exact forall_update (P := OnAuth8 A serverAPIKey) hs' ⟨nofun, nofun⟩ fun j d _ => hI j d
  · refine forall_update (P := OnAuth8 A serverAPIKey) hs' ?_ fun j d _ => hI j d
    obtain ⟨harn, _⟩ := hI i c hc
    rw [OnAuth8]
    generalize c.pc = pc at harn hr
    cases hr with
    | create =>
      refine ⟨?_, nofun⟩
      intro a ha
      cases ha
      rfl
    | endpoint arn e _ he =>
      refine ⟨harn, ?_⟩
      intro a e' hpc
      cases hpc
      exact he
    | publish arn e messageId => exact ⟨harn, nofun⟩
    | endpointThrew | publishThrew | delete => exact ⟨nofun, nofun⟩

/-- A step keeps every call safe exactly when it is no deletion that disturbs another call. -/
theorem safe_step_iff (A : Applications sns) (hjson : ∀ j, jsonify j ≠ none) {e : PushEvent}
    (hI : SameApplication A serverAPIKey s) (hs : Safe A s)
    (h : pushStep sns jsonify serverAPIKey s e = some s') : Safe A s' ↔ Undisturbing s e := by
  rcases push_cases A hjson h with
    ⟨i, device, requestId, payload, rfl, hm, hs'⟩ | ⟨i, c, q, rfl, hc, hs', hr⟩
  · refine iff_of_true (forall_update (P := CallSafe A s'.service) hs' ⟨nofun, nofun⟩ ?_) trivial
    intro j d _ hd
    rw [hm]
    exact hs j d hd
  · obtain ⟨harn, hpub⟩ := hI i c hc
    obtain ⟨_, hlive⟩ := hs i c hc
    generalize hpc : c.pc = pc at harn hpub hlive hr
    -- a call that deletes nothing disturbs nobody, and finds its application
    have hkeep (hdel : pc.isDelete = false) (hq : q ≠ .threw)
        (hmono : ∀ a, A.live s.service a → A.live s'.service a)
        (hown : ∀ a, q.pending = some a → A.live s'.service a) :
        Safe A s' ↔ Undisturbing s (.run i) := by
      refine iff_of_true (forall_update (P := CallSafe A s'.service) hs' ⟨hq, hown⟩ ?_) ?_
      · intro j d _ hd
        exact ⟨(hs j d hd).1, fun a ha => hmono a ((hs j d hd).2 a ha)⟩
      · intro c' hc' hd
        obtain rfl : c = c' := Option.some.inj (hc.symm.trans hc')
        rw [hpc, hdel] at hd
        cases hd
    cases hr with
    | create hl =>
      refine hkeep rfl nofun (fun a ha => (hl a).mpr (.inr ha)) ?_
      intro a ha
      cases ha
      exact (hl _).mpr (.inl rfl)
    | endpoint arn e hok _ hl =>
      refine hkeep rfl nofun (fun a ha => (hl a).mpr ha) ?_
      intro a ha
      cases ha
      exact (hl _).mpr hok
    | publish arn e messageId hok hl => exact hkeep rfl nofun (fun a ha => (hl a).mpr ha) nofun
    | endpointThrew arn hno => exact absurd (hlive arn rfl) hno
    | publishThrew arn e hno =>
      rw [hpub arn e rfl] at hno
      exact absurd (hlive arn rfl) hno
    | delete arn messageId hl =>
      obtain rfl := harn arn rfl
      constructor
      · intro hsafe c' _ _ j d hj hd
        by_contra hne
        obtain ⟨a, ha⟩ := Option.ne_none_iff_exists'.mp hne
        have hd' : s'.calls j = some d := by rw [hs', Function.update_of_ne hj, hd]
        -- the other call was going to use the application that is gone
        exact ((hl a).mp ((hsafe j d hd').2 a ha)).2
          ((hI j d hd).1 a (DemoPc.created_of_pending ha))
      · intro hquiet
        refine forall_update (P := CallSafe A s'.service) hs' ⟨nofun, nofun⟩ ?_
        intro j d hj hd
        have hnone := hquiet c hc (by rw [hpc]; rfl) j d hj hd
        refine ⟨(hs j d hd).1, fun a ha => ?_⟩
        rw [hnone] at ha
        cases ha

/-- In a run of concurrent pushes every call finds its application, from its creation to its
publication, and none fails, exactly when no deletion falls between the creation and the publication of
another call. -/
theorem pushes_safe_iff (A : Applications sns) (hjson : ∀ j, jsonify j ≠ none) {m : σ}
    {es : List PushEvent} (h : run (pushStep sns jsonify serverAPIKey) (.init m) es = some s) :
    Along (pushStep sns jsonify serverAPIKey) Undisturbing (.init m) es ↔
      ∀ pre t, pre <+: es → run (pushStep sns jsonify serverAPIKey) (.init m) pre = some t →
        Safe A t :=
  along_iff_invariant (fun _ _ _ hI _ _ => sameApplication_of_step A hjson hI)
    (fun _ _ _ => safe_step_iff A hjson) nofun nofun h

end

/-! ## A service, one push and two pushes -/

def memoryApplication (e : String) : String := String.ofList (e.toList.rdrop "/endpoint".length)

/-- A service that keeps the ARNs of its applications; every token has the same endpoint. -/
def memorySns : AmazonSNS (Finset String) where
  createPlatformApplication r s :=
    (some (r.platform ++ "/" ++ r.name), insert (r.platform ++ "/" ++ r.name) s)
  createPlatformEndpoint r s :=
    (if r.platformApplicationArn ∈ s then some (r.platformApplicationArn ++ "/endpoint") else none, s)
  publish r s := (if memoryApplication r.targetArn ∈ s then some "message" else none, s)
  deletePlatformApplication a s := (some (), s.erase a)

def memoryApplications : Applications memorySns where
  arn r := r.platform ++ "/" ++ r.name
  applicationArn := memoryApplication
  live s a := a ∈ s
  create_arn _ _ := rfl
  create_live _ _ _ := Finset.mem_insert
  endpoint_isSome r s := by
    by_cases h : r.platformApplicationArn ∈ s <;> simp [memorySns, h]
  endpoint_arn r s e he := by
    by_cases h : r.platformApplicationArn ∈ s
    · simp only [memorySns, h, if_true, Option.some.injEq] at he
      subst he
      rw [memoryApplication, String.toList_append, ← String.length_toList, List.rdrop_append_length,
        String.ofList_toList]
    · simp [memorySns, h] at he
  endpoint_live _ _ _ := Iff.rfl
  publish_isSome r s := by
    by_cases h : memoryApplication r.targetArn ∈ s <;> simp [memorySns, h]
  publish_live _ _ _ := Iff.rfl
  delete_isSome _ _ := rfl
  delete_live _ _ _ := by simp [memorySns, Finset.mem_erase, and_comm]

def onePush : List PushEvent :=
  .send 0 ⟨"user@example.com", some "phone", "gcm"⟩ "id" [] :: List.replicate 4 (.run 0)

abbrev memoryStep := pushStep memorySns (fun j => some j.text) "key"

theorem onePush_safe :
    Along memoryStep Undisturbing (.init ∅) onePush ↔
      ∀ pre t, pre <+: onePush → run memoryStep (.init ∅) pre = some t → Safe memoryApplications t :=
  pushes_safe_iff memoryApplications (fun _ => Option.some_ne_none _)
    (Option.some_get (by decide : (run memoryStep (.init ∅) onePush).isSome)).symm

/-- The first call deletes the application when the second has created it and needs it still. -/
def twoPushes : List PushEvent :=
  [.send 0 ⟨"user@example.com", some "phone", "gcm"⟩ "id" [],
    .send 1 ⟨"other@example.com", some "tablet", "gcm2"⟩ "id2" [],
    .run 0, .run 0, .run 0, .run 1, .run 0, .run 1]

theorem twoPushes_second_threw :
    ((run memoryStep (.init ∅) twoPushes).bind fun s => (s.calls 1).map PushCall.pc) = some .threw := by
  decide

end Auth8.Aws
