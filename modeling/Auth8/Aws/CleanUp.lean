import Auth8.Aws.ConcurrentPush
import Mathlib.Order.BooleanAlgebra.Set

/-! # What a push leaves behind

`demoNotification` by itself, on a service any of whose calls may throw. It deletes its application in its
last statement only, so an exception between the creation and the deletion leaves the application there. -/
namespace Auth8.Aws
set_option autoImplicit false

variable {σ : Type}

/-- The ARNs of the platform applications of a service. A call that throws leaves them as they are, but
for a deletion, of which nothing is known then. -/
structure PlatformApplications (sns : AmazonSNS σ) where
  live : σ → Set String
  create_live : ∀ r s arn, (sns.createPlatformApplication r s).1 = some arn →
    live (sns.createPlatformApplication r s).2 = insert arn (live s)
  create_throws : ∀ r s, (sns.createPlatformApplication r s).1 = none →
    live (sns.createPlatformApplication r s).2 = live s
  endpoint_live : ∀ r s, live (sns.createPlatformEndpoint r s).2 = live s
  publish_live : ∀ r s, live (sns.publish r s).2 = live s
  delete_live : ∀ arn s, (sns.deletePlatformApplication arn s).1.isSome →
    live (sns.deletePlatformApplication arn s).2 = live s \ {arn}

/-- A service that does not fail on its own is one of these. -/
def Applications.toPlatformApplications {sns : AmazonSNS σ} (A : Applications sns) :
    PlatformApplications sns where
  live s := {arn | A.live s arn}
  create_live r s arn harn := by
    rw [A.create_arn] at harn
    obtain rfl := Option.some.inj harn
    exact Set.ext (A.create_live r s)
  create_throws r s hnone := by
    rw [A.create_arn] at hnone
    cases hnone
  endpoint_live r s := Set.ext (A.endpoint_live r s)
  publish_live r s := Set.ext (A.publish_live r s)
  delete_live arn s _ := Set.ext (A.delete_live arn s)

/-- At most `k` steps of the call. -/
def DemoNotification.steps (sns : AmazonSNS σ) (jsonify : Json → Option String)
    (n : DemoNotification) : ℕ → DemoPc × σ → DemoPc × σ
  | 0, c => c
  | k + 1, c => n.steps sns jsonify k ((n.step sns jsonify c.2 c.1).getD c)

/-- The whole call: its end, and the service after it. -/
def demoNotification (sns : AmazonSNS σ) (jsonify : Json → Option String) (n : DemoNotification)
    (s : σ) : DemoPc × σ :=
  n.steps sns jsonify 4 (.createApplication, s)

section
variable (sns : AmazonSNS σ) (jsonify : Json → Option String) (n : DemoNotification)

/-- The application of the call, and the service after its creation. -/
def Creates (s : σ) (arn : String) (s' : σ) : Prop :=
  sns.createPlatformApplication n.application s = (some arn, s')

/-- The request can be built, and the call for it has a result. -/
def Succeeds {ρ : Type} (request : Option ρ) (call : ρ → σ → Option String × σ) (s : σ)
    (result : String) (s' : σ) : Prop :=
  ∃ r, request = some r ∧ call r s = (some result, s')

/-- Nothing throws from after the creation up to the publication, which leaves the service in `s'`. -/
def Publishes (arn : String) (s s' : σ) : Prop :=
  ∃ endpointArn s₁ messageId,
    Succeeds (n.endpoint arn) sns.createPlatformEndpoint s endpointArn s₁ ∧
    Succeeds (n.message jsonify endpointArn) sns.publish s₁ messageId s'

/-- The deletion itself throws. -/
def DeletionThrows (s : σ) : Prop :=
  ∃ arn s₁ s₂, Creates sns n s arn s₁ ∧ Publishes sns jsonify n arn s₁ s₂ ∧
    (sns.deletePlatformApplication arn s₂).1 = none

end

variable {sns : AmazonSNS σ} {jsonify : Json → Option String} {n : DemoNotification}
variable {s s' : σ} {arn endpointArn : String} {k : ℕ}

theorem Succeeds.unique {ρ : Type} {request : Option ρ} {call : ρ → σ → Option String × σ}
    {result result' : String} {t : σ} (h : Succeeds request call s result s')
    (h' : Succeeds request call s result' t) : result = result' ∧ s' = t := by
  obtain ⟨r, hr, hcall⟩ := h
  obtain ⟨r', hr', hcall'⟩ := h'
  obtain rfl := Option.some.inj (hr.symm.trans hr')
  obtain ⟨⟩ := hcall.symm.trans hcall'
  exact ⟨rfl, rfl⟩

theorem Publishes.unique {t : σ} (h : Publishes sns jsonify n arn s s')
    (h' : Publishes sns jsonify n arn s t) : s' = t := by
  obtain ⟨_, _, _, hendpoint, hpublish⟩ := h
  obtain ⟨_, _, _, hendpoint', hpublish'⟩ := h'
  obtain ⟨rfl, rfl⟩ := hendpoint.unique hendpoint'
  exact (hpublish.unique hpublish').2

theorem Creates.unique {arn' : String} {t : σ} (h : Creates sns n s arn s')
    (h' : Creates sns n s arn' t) : arn = arn' ∧ s' = t := by
  obtain ⟨⟩ := h.symm.trans h'
  exact ⟨rfl, rfl⟩

/-! ## The steps -/

theorem steps_succ {pc : DemoPc} {c : DemoPc × σ} (h : n.step sns jsonify s pc = some c) :
    n.steps sns jsonify (k + 1) (pc, s) = n.steps sns jsonify k c := by
  rw [DemoNotification.steps, h, Option.getD_some]

theorem steps_threw : n.steps sns jsonify k (.threw, s) = (.threw, s) := by
  induction k with
  | zero => rfl
  | succ k ih => exact ih

theorem step_createApplication (sns : AmazonSNS σ) (jsonify : Json → Option String)
    (n : DemoNotification) (s : σ) :
    (∃ arn s', Creates sns n s arn s' ∧
      n.step sns jsonify s .createApplication = some (.createEndpoint arn, s')) ∨
    ∃ s', sns.createPlatformApplication n.application s = (none, s') ∧
      n.step sns jsonify s .createApplication = some (.threw, s') := by
  obtain ⟨⟨result, s'⟩, hcall⟩ : ∃ c, sns.createPlatformApplication n.application s = c := ⟨_, rfl⟩
  cases result with
  | some arn => exact .inl ⟨arn, s', hcall, by rw [DemoNotification.step, hcall]; rfl⟩
  | none => exact .inr ⟨s', hcall, by rw [DemoNotification.step, hcall]; rfl⟩

/-- A request and its call, from which the sequence goes on or throws. -/
theorem succeeds_or_throws {ρ : Type} {live : σ → Set String} (request : Option ρ)
    {call : ρ → σ → Option String × σ} (hlive : ∀ r s, live (call r s).2 = live s)
    (next : String → DemoPc) (s : σ) : ∃ s', live s' = live s ∧
      ((∃ result, Succeeds request call s result s' ∧
          request.elim (.threw, s) (fun r => DemoPc.after next (call r s)) = (next result, s')) ∨
        (¬ ∃ result s', Succeeds request call s result s') ∧
          request.elim (.threw, s) (fun r => DemoPc.after next (call r s)) = (.threw, s')) := by
  cases request with
  | none => exact ⟨s, rfl, .inr ⟨nofun, rfl⟩⟩
  | some r =>
    have hs := hlive r s
    obtain ⟨⟨result, s'⟩, hcall⟩ : ∃ c, call r s = c := ⟨_, rfl⟩
    rw [Option.elim_some, hcall]
    rw [hcall] at hs
    refine ⟨s', hs, ?_⟩
    cases result with
    | some result => exact .inl ⟨result, ⟨r, rfl, hcall⟩, rfl⟩
    | none =>
      refine .inr ⟨?_, rfl⟩
      rintro ⟨_, _, _, ⟨⟩, hcall'⟩
      cases hcall.symm.trans hcall'

theorem step_createEndpoint (sns : AmazonSNS σ) (jsonify : Json → Option String)
    (n : DemoNotification) (s : σ) (arn : String) :
    n.step sns jsonify s (.createEndpoint arn) =
      some ((n.endpoint arn).elim (.threw, s) fun r =>
        DemoPc.after (.publish arn) (sns.createPlatformEndpoint r s)) := by
  rw [DemoNotification.step]
  cases n.endpoint arn <;> rfl

theorem step_publish (sns : AmazonSNS σ) (jsonify : Json → Option String) (n : DemoNotification)
    (s : σ) (arn endpointArn : String) :
    n.step sns jsonify s (.publish arn endpointArn) =
      some ((n.message jsonify endpointArn).elim (.threw, s) fun r =>
        DemoPc.after (.deleteApplication arn) (sns.publish r s)) := by
  rw [DemoNotification.step]
  cases n.message jsonify endpointArn <;> rfl

/-! ## The whole call -/

/-- After the creation the call comes to the deletion, with the applications as they were, or it throws
with the applications as they were. -/
theorem steps_after_creation (A : PlatformApplications sns) (n : DemoNotification) (arn : String)
    (s : σ) : ∃ s', A.live s' = A.live s ∧
      ((∃ messageId, Publishes sns jsonify n arn s s' ∧
          n.steps sns jsonify 3 (.createEndpoint arn, s) =
            n.steps sns jsonify 1 (.deleteApplication arn messageId, s')) ∨
        (¬ ∃ s', Publishes sns jsonify n arn s s') ∧
          n.steps sns jsonify 3 (.createEndpoint arn, s) = (.threw, s')) := by
  obtain ⟨s₁, hlive₁, ⟨endpointArn, hendpoint, hstep⟩ | ⟨hno, hstep⟩⟩ :=
    succeeds_or_throws (n.endpoint arn) A.endpoint_live (.publish arn) s
  · rw [steps_succ (step_createEndpoint sns jsonify n s arn), hstep,
      steps_succ (step_publish sns jsonify n s₁ arn endpointArn)]
    obtain ⟨s₂, hlive₂, ⟨messageId, hpublish, hstep⟩ | ⟨hno, hstep⟩⟩ :=
      succeeds_or_throws (n.message jsonify endpointArn) A.publish_live (.deleteApplication arn) s₁
    · refine ⟨s₂, hlive₂.trans hlive₁, .inl ⟨messageId, ?_, by rw [hstep]⟩⟩
      exact ⟨endpointArn, s₁, messageId, hendpoint, hpublish⟩
    · refine ⟨s₂, hlive₂.trans hlive₁, .inr ⟨?_, by rw [hstep, steps_threw]⟩⟩
      rintro ⟨s', _, _, messageId, hendpoint', hpublish⟩
      obtain ⟨rfl, rfl⟩ := hendpoint.unique hendpoint'
      exact hno ⟨messageId, s', hpublish⟩
  · refine ⟨s₁, hlive₁, .inr ⟨?_, ?_⟩⟩
    · rintro ⟨_, endpointArn, s₁', _, hendpoint, _⟩
      exact hno ⟨endpointArn, s₁', hendpoint⟩
    · rw [steps_succ (step_createEndpoint sns jsonify n s arn), hstep, steps_threw]

/-- The three ends of a call: before its application is created, at the deletion, and in between. -/
theorem demoNotification_cases (A : PlatformApplications sns) (jsonify : Json → Option String)
    (n : DemoNotification) (s : σ) :
    ((∀ arn s₁, ¬ Creates sns n s arn s₁) ∧ ∃ s', A.live s' = A.live s ∧
      demoNotification sns jsonify n s = (.threw, s')) ∨
    (∃ arn s₁ s₂ messageId, Creates sns n s arn s₁ ∧ Publishes sns jsonify n arn s₁ s₂ ∧
      A.live s₂ = insert arn (A.live s) ∧
      demoNotification sns jsonify n s =
        DemoPc.after (fun _ => .returned messageId) (sns.deletePlatformApplication arn s₂)) ∨
    ∃ arn s₁ s', Creates sns n s arn s₁ ∧ (¬ ∃ s₂, Publishes sns jsonify n arn s₁ s₂) ∧
      A.live s' = insert arn (A.live s) ∧ demoNotification sns jsonify n s = (.threw, s') := by
  unfold demoNotification
  rcases step_createApplication sns jsonify n s with ⟨arn, s₁, hcreate, hstep⟩ | ⟨s', hcall, hstep⟩
  · have hlive : A.live s₁ = insert arn (A.live s) := by
      have := A.create_live n.application s arn (congrArg Prod.fst hcreate)
      rwa [congrArg Prod.snd hcreate] at this
    rw [steps_succ hstep]
    obtain ⟨s₂, hlive₂, ⟨messageId, hpublishes, hsteps⟩ | ⟨hno, hsteps⟩⟩ :=
      steps_after_creation A n arn s₁
    · refine .inr (.inl ⟨arn, s₁, s₂, messageId, hcreate, hpublishes, hlive₂.trans hlive, ?_⟩)
      exact hsteps.trans (steps_succ rfl)
    · exact .inr (.inr ⟨arn, s₁, s₂, hcreate, hno, hlive₂.trans hlive, hsteps⟩)
  · refine .inl ⟨?_, s', ?_, (steps_succ hstep).trans steps_threw⟩
    · intro arn s₁ hcreate
      cases hcall.symm.trans hcreate
    · have := A.create_throws n.application s (congrArg Prod.fst hcall)
      rwa [congrArg Prod.snd hcall] at this

/-- Every call returns or throws. -/
theorem demoNotification_ends (A : PlatformApplications sns) (jsonify : Json → Option String)
    (n : DemoNotification) (s : σ) : (demoNotification sns jsonify n s).1 = .threw ∨
      ∃ messageId, (demoNotification sns jsonify n s).1 = .returned messageId := by
  rcases demoNotification_cases A jsonify n s with
    ⟨_, s', _, hend⟩ | ⟨arn, s₁, s₂, messageId, _, _, _, hend⟩ | ⟨arn, s₁, s', _, _, _, hend⟩
  · exact .inl (congrArg Prod.fst hend)
  · obtain ⟨_, ⟨_, _, hreturned⟩ | ⟨_, hthrew⟩⟩ := DemoPc.after_eq (hend.symm.trans Prod.mk.eta.symm)
    · exact .inr ⟨messageId, hreturned⟩
    · exact .inl hthrew
  · exact .inl (congrArg Prod.fst hend)

/-! ## The applications that are left -/

/-- The applications after the call are those before it, unless the deletion throws. -/
def CleansUp (A : PlatformApplications sns) (jsonify : Json → Option String) (n : DemoNotification)
    (s : σ) : Prop :=
  ¬ DeletionThrows sns jsonify n s → A.live (demoNotification sns jsonify n s).2 = A.live s

/-- An application that was not there is published to, and for one that was there something throws. -/
def NewOrFailed (A : PlatformApplications sns) (jsonify : Json → Option String)
    (n : DemoNotification) (s : σ) : Prop :=
  ∀ arn s₁, Creates sns n s arn s₁ → (arn ∉ A.live s ↔ ∃ s₂, Publishes sns jsonify n arn s₁ s₂)

/-- A call leaves the applications as they were exactly where it creates none, creates one and comes to
the deletion, or finds one and does not come to it. -/
theorem cleansUp_iff (A : PlatformApplications sns) (jsonify : Json → Option String)
    (n : DemoNotification) (s : σ) :
    CleansUp A jsonify n s ↔ DeletionThrows sns jsonify n s ∨ NewOrFailed A jsonify n s := by
  by_cases hthrows : DeletionThrows sns jsonify n s
  · exact iff_of_true (absurd hthrows) (.inl hthrows)
  rw [or_iff_right hthrows]
  have hclean : CleansUp A jsonify n s ↔ A.live (demoNotification sns jsonify n s).2 = A.live s :=
    forall_prop_of_true hthrows
  rw [hclean]
  rcases demoNotification_cases A jsonify n s with ⟨hno, s', hlive, hend⟩ |
    ⟨arn, s₁, s₂, messageId, hcreate, hpublishes, hlive, hend⟩ | ⟨arn, s₁, s', hcreate, hno, hlive, hend⟩
  · rw [hend]
    exact iff_of_true hlive fun arn s₁ hcreate => absurd hcreate (hno arn s₁)
  · have hdelete : (sns.deletePlatformApplication arn s₂).1.isSome = true := by
      rw [Option.isSome_iff_ne_none]
      exact fun hnone => hthrows ⟨arn, s₁, s₂, hcreate, hpublishes, hnone⟩
    have hafter : (demoNotification sns jsonify n s).2 = (sns.deletePlatformApplication arn s₂).2 :=
      (DemoPc.after_eq (hend.symm.trans Prod.mk.eta.symm)).1
    rw [hafter, A.delete_live arn s₂ hdelete, hlive, Set.insert_sdiff_of_mem _ (Set.mem_singleton arn)]
    constructor
    · intro hsame arn' s₁' hcreate'
      obtain ⟨rfl, rfl⟩ := hcreate.unique hcreate'
      refine iff_of_true (fun hmem => ?_) ⟨s₂, hpublishes⟩
      rw [← hsame] at hmem
      exact hmem.2 rfl
    · intro hnew
      exact Set.sdiff_singleton_eq_self ((hnew arn s₁ hcreate).mpr ⟨s₂, hpublishes⟩)
  · rw [hend, hlive, Set.insert_eq_self]
    constructor
    · intro hmem arn' s₁' hcreate'
      obtain ⟨rfl, rfl⟩ := hcreate.unique hcreate'
      exact iff_of_false (not_not.mpr hmem) hno
    · intro hnew
      by_contra hmem
      exact hno ((hnew arn s₁ hcreate).mp hmem)

/-! ## A token without a second part -/

def badToken : DemoNotification where
  platform := .BAIDU
  principal := ""
  credential := "key"
  platformToken := "token"
  applicationName := "Auth8"
  attrsMap := attributesMap
  requestId := "id"
  payload := []

/-- The split of the token throws, and the application stays. -/
theorem badToken_leaves_application : ¬ ∀ (sns : AmazonSNS (Finset String))
    (A : PlatformApplications sns) (jsonify : Json → Option String) (n : DemoNotification)
    (s : Finset String), CleansUp A jsonify n s := by
  intro h
  have hclean := h memorySns memoryApplications.toPlatformApplications (fun j => some j.text) badToken ∅
    (by rintro ⟨_, _, _, _, _, hnone⟩; cases hnone)
  have hleft : (demoNotification memorySns (fun j => some j.text) badToken ∅).2 = {"BAIDU/Auth8"} := by
    decide +kernel
  rw [hleft] at hclean
  have hmem : "BAIDU/Auth8" ∈ ({"BAIDU/Auth8"} : Finset String) := Finset.mem_singleton_self _
  exact absurd ((Set.ext_iff.mp hclean _).mp hmem) (Finset.notMem_empty _)

end Auth8.Aws
