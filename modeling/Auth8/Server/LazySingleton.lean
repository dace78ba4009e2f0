import Auth8.Foundations.EventRuns
import Mathlib.Data.List.AList

/-! # The class `LazySingleton`

`getInstance` is a double-checked lock on the class monitor. Its statements are single steps here, so
that threads may meet anywhere inside it; `Settled` is what keeps every caller on one object, and hence
on one request map. -/
namespace Auth8.Server
open EventRuns
set_option autoImplicit false

inductive Thread where
  | authenticate (c : ℕ)
  | wake (w : ℕ)
  deriving DecidableEq, Repr

/-- `Map<String, AuthRequest>`; an `AuthRequest` is named by the `authenticate` call that created it. -/
abbrev RequestMap := AList fun _ : String => ℕ

/-- The static fields of the class, its monitor and the objects constructed so far. -/
structure LazySingleton where
  inst : Option ℕ
  monitor : Option Thread
  count : ℕ
  objects : ℕ → RequestMap

/-- Where a thread stands inside `getInstance`. -/
inductive GetInstancePc where
  /-- the first `instance == null` -/
  | check
  /-- `synchronized (LazySingleton.class)` -/
  | enter
  /-- the second `instance == null` -/
  | recheck
  /-- `instance = new LazySingleton()` -/
  | create
  /-- leaving the synchronized block -/
  | exit
  /-- `return instance` -/
  | load
  deriving DecidableEq, Repr

def GetInstancePc.isCritical : GetInstancePc → Bool
  | .recheck | .create | .exit => true
  | _ => false

/-- The thread has seen, or made, a non-null `instance`. -/
def GetInstancePc.hasSeen : GetInstancePc → Bool
  | .exit | .load => true
  | _ => false

namespace LazySingleton

def init : LazySingleton where
  inst := none
  monitor := none
  count := 0
  objects := fun _ => ∅

def requestMap (g : LazySingleton) : RequestMap :=
  match g.inst with
  | none => ∅
  | some r => g.objects r

/-- `getRequest().put(key, value)` on the object `r`. -/
def put (g : LazySingleton) (r : ℕ) (key : String) (value : ℕ) : LazySingleton :=
  { g with objects := Function.update g.objects r ((g.objects r).insert key value) }

/-- `getRequest().get(key)` on the object `r`. -/
def get (g : LazySingleton) (r : ℕ) (key : String) : Option ℕ := (g.objects r).lookup key

/-- One statement of `getInstance` by the thread `t`: the new class state, and the next position or the
returned reference. -/
def step (g : LazySingleton) (t : Thread) :
    GetInstancePc → Option (LazySingleton × (GetInstancePc ⊕ Option ℕ))
  | .check => some (g, .inl (if g.inst = none then .enter else .load))
  | .enter => whenever (g.monitor = none) ({ g with monitor := some t }, .inl .recheck)
  | .recheck => some (g, .inl (if g.inst = none then .create else .exit))
  | .create =>
    some ({ g with inst := some g.count
                   count := g.count + 1
                   objects := Function.update g.objects g.count ∅ }, .inl .exit)
  | .exit => some ({ g with monitor := none }, .inl .load)
  | .load => some (g, .inr g.inst)

/-! ## One object for all callers -/

/-- What holds of a thread inside `getInstance`. -/
structure Settled (g : LazySingleton) (t : Thread) (p : GetInstancePc) : Prop where
  critical : p.isCritical = true → g.monitor = some t
  create : p = .create → g.inst = none
  seen : p.hasSeen = true → g.inst ≠ none

variable {g g' : LazySingleton} {t u : Thread} {p q : GetInstancePc}

theorem settled_check (g : LazySingleton) (t : Thread) : Settled g t .check := by
  constructor <;> simp [GetInstancePc.isCritical, GetInstancePc.hasSeen]

theorem Settled.put (h : Settled g t p) (r : ℕ) (key : String) (value : ℕ) :
    Settled (g.put r key value) t p :=
  ⟨h.critical, h.create, h.seen⟩

theorem requestMap_put {r : ℕ} (h : g.inst = some r) (key : String) (value : ℕ) :
    (g.put r key value).requestMap = g.requestMap.insert key value := by
  simp [requestMap, put, h]

theorem get_inst {r : ℕ} (h : g.inst = some r) (key : String) :
    g.get r key = g.requestMap.lookup key := by
  simp [requestMap, get, h]

/-- A step keeps the instance and every request map, unless it creates the first instance. -/
theorem step_inst {x : GetInstancePc ⊕ Option ℕ} (h : g.step t p = some (g', x)) (hp : Settled g t p) :
    (g'.inst = g.inst ∧ g'.objects = g.objects) ∨
      g.inst = none ∧ g'.inst ≠ none ∧ g'.requestMap = ∅ := by
  cases p with
  | create =>
    cases h
    exact .inr ⟨hp.create rfl, by simp, by simp [requestMap]⟩
  | enter =>
    obtain ⟨_, h⟩ := whenever_eq_some.mp h
    cases h
    exact .inl ⟨rfl, rfl⟩
  | _ =>
    cases h
    exact .inl ⟨rfl, rfl⟩

theorem step_requestMap {x : GetInstancePc ⊕ Option ℕ} (h : g.step t p = some (g', x))
    (hp : Settled g t p) : g'.requestMap = g.requestMap := by
  rcases step_inst h hp with ⟨hi, ho⟩ | ⟨hn, _, he⟩
  · simp [requestMap, hi, ho]
  · simp [requestMap, hn] at he ⊢
    exact he

theorem step_inst_of_ne_none {x : GetInstancePc ⊕ Option ℕ} (h : g.step t p = some (g', x))
    (hp : Settled g t p) (hg : g.inst ≠ none) : g'.inst = g.inst := by
  rcases step_inst h hp with ⟨hi, _⟩ | ⟨hn, _⟩
  · exact hi
  · exact absurd hn hg

theorem step_settled (h : g.step t p = some (g', .inl q)) (hp : Settled g t p) : Settled g' t q := by
  cases p with
  | check =>
    cases h
    constructor <;> split <;> simp_all [GetInstancePc.isCritical, GetInstancePc.hasSeen]
  | enter =>
    obtain ⟨_, h⟩ := whenever_eq_some.mp h
    cases h
    constructor <;> simp [GetInstancePc.isCritical, GetInstancePc.hasSeen]
  | recheck =>
    have := hp.critical rfl
    cases h
    constructor <;> split <;> simp_all [GetInstancePc.isCritical, GetInstancePc.hasSeen]
  | create =>
    have := hp.critical rfl
    cases h
    constructor <;> simp_all [GetInstancePc.isCritical, GetInstancePc.hasSeen]
  | exit =>
    have := hp.seen rfl
    cases h
    constructor <;> simp_all [GetInstancePc.isCritical, GetInstancePc.hasSeen]
  | load => cases h

/-- A thread that returns from `getInstance` has the instance, and it is not null. -/
theorem step_returned {r : Option ℕ} (h : g.step t p = some (g', .inr r)) (hp : Settled g t p) :
    r = g'.inst ∧ g'.inst ≠ none := by
  cases p with
  | load =>
    cases h
    exact ⟨rfl, hp.seen rfl⟩
  | enter =>
    obtain ⟨_, h⟩ := whenever_eq_some.mp h
    cases h
  | _ => cases h

/-- The other threads stay settled: the monitor keeps them out of the block. -/
theorem step_settled_other {x : GetInstancePc ⊕ Option ℕ} (h : g.step t p = some (g', x))
    (hp : Settled g t p) (hne : u ≠ t) (hq : Settled g u q) : Settled g' u q := by
  have hout : p.isCritical = true → q.isCritical = false := by
    intro hc
    by_contra hq'
    have := (hq.critical (by simpa using hq')).symm.trans (hp.critical hc)
    exact hne (by simpa using this)
  refine ⟨?_, ?_, ?_⟩
  · intro hc
    cases p with
    | enter =>
      obtain ⟨hm, h⟩ := whenever_eq_some.mp h
      rw [hq.critical hc] at hm
      cases hm
    | exit => rw [hout rfl] at hc; cases hc
    | create => rw [hout rfl] at hc; cases hc
    | _ =>
      cases h
      exact hq.critical hc
  · rintro rfl
    rcases step_inst h hp with ⟨hi, _⟩ | ⟨hn, hs, _⟩
    · rw [hi]
      exact hq.create rfl
    · cases p with
      | create => exact absurd (hout rfl) (by decide)
      | enter =>
        obtain ⟨_, h⟩ := whenever_eq_some.mp h
        cases h
        exact absurd hn hs
      | _ =>
        cases h
        exact absurd hn hs
  · intro hs
    rw [step_inst_of_ne_none h hp (hq.seen hs)]
    exact hq.seen hs

end LazySingleton

end Auth8.Server
