import Mathlib.Data.List.Basic
import Mathlib.Data.List.Induction
import Mathlib.Data.List.TakeWhile
import Mathlib.Logic.Function.Basic

/-! # Runs of an executable event system

A system is a partial function `step : σ → ε → Option σ`; an event whose turn comes while it is not
enabled makes the schedule invalid (`none`). A schedule is a list of events, so the runs of a system
of concurrent parties are exactly the interleavings of their events. The rules below are the ones a
proof about a system uses: an invariant is kept along a run, a fact about the schedule so far is kept
along a run, and a system whose every step is matched by a run of another one is simulated by it. -/
namespace EventRuns
set_option autoImplicit false

variable {σ τ ε δ : Type*}

/-- Executing a schedule from `s`. -/
def run (step : σ → ε → Option σ) (s : σ) (es : List ε) : Option σ := es.foldlM step s

variable {step : σ → ε → Option σ}

@[simp] theorem run_nil (s : σ) : run step s [] = some s := rfl

theorem run_cons (s : σ) (e : ε) (es : List ε) :
    run step s (e :: es) = (step s e).bind fun m => run step m es := by
  simp [run, List.foldlM_cons]

@[simp] theorem run_single (s : σ) (e : ε) : run step s [e] = step s e := by
  cases h : step s e <;> simp [run_cons, h]

theorem run_append (s : σ) (es fs : List ε) :
    run step s (es ++ fs) = (run step s es).bind fun m => run step m fs := by
  simp [run, List.foldlM_append]

theorem run_cons_eq_some {s s' : σ} {e : ε} {es : List ε} :
    run step s (e :: es) = some s' ↔ ∃ m, step s e = some m ∧ run step m es = some s' := by
  rw [run_cons, Option.bind_eq_some_iff]

theorem run_append_eq_some {s s' : σ} {es fs : List ε} :
    run step s (es ++ fs) = some s' ↔ ∃ m, run step s es = some m ∧ run step m fs = some s' := by
  rw [run_append, Option.bind_eq_some_iff]

theorem run_concat_eq_some {s s' : σ} {es : List ε} {e : ε} :
    run step s (es ++ [e]) = some s' ↔ ∃ m, run step s es = some m ∧ step m e = some s' := by
  simp only [run_append_eq_some, run_single]

/-! ## Guarded events -/

/-- An event with a guard: not enabled where the guard fails. -/
def whenever (p : Prop) [Decidable p] (s : σ) : Option σ := if p then some s else none

@[simp] theorem whenever_eq_some {p : Prop} [Decidable p] {s s' : σ} :
    whenever p s = some s' ↔ p ∧ s = s' := by
  unfold whenever
  split <;> simp_all

/-! ## The part of a schedule before an event -/

/-- The events before the first occurrence of `e`. -/
def before [DecidableEq ε] (e : ε) (es : List ε) : List ε := es.takeWhile fun x => !decide (x = e)

theorem before_concat_of_mem [DecidableEq ε] {e : ε} {es : List ε} (x : ε) (h : e ∈ es) :
    before e (es ++ [x]) = before e es := by
  induction es with
  | nil => simp at h
  | cons y es ih =>
    by_cases hy : y = e
    · simp [before, hy]
    · have hm : e ∈ es := (List.mem_cons.mp h).resolve_left (Ne.symm hy)
      simpa [before, hy] using ih hm

theorem before_concat_self [DecidableEq ε] {e : ε} {es : List ε} (h : e ∉ es) :
    before e (es ++ [e]) = es := by
  unfold before
  rw [List.takeWhile_append_of_pos]
  · simp
  · intro x hx
    simpa using fun hxe : x = e => h (hxe ▸ hx)

/-! ## Parties -/

/-- What holds of the party that has moved, and of the others as before, holds of all. -/
theorem forall_update {α β : Type*} [DecidableEq α] {f g : α → Option β} {i : α} {b : β}
    {P : β → Prop} (hg : g = Function.update f i (some b)) (hb : P b)
    (hf : ∀ j c, j ≠ i → f j = some c → P c) : ∀ j c, g j = some c → P c := by
  intro j c hc
  rw [hg] at hc
  by_cases hj : j = i
  · rw [hj, Function.update_self] at hc
    cases hc
    exact hb
  · rw [Function.update_of_ne hj] at hc
    exact hf j c hj hc

/-! ## Invariants -/

/-- What every step keeps, every run keeps. -/
theorem run_invariant {P : σ → Prop} (hstep : ∀ s e s', P s → step s e = some s' → P s')
    {s s' : σ} {es : List ε} (hs : P s) (h : run step s es = some s') : P s' := by
  induction es generalizing s with
  | nil => cases h; exact hs
  | cons e es ih =>
    obtain ⟨m, hm, hr⟩ := run_cons_eq_some.mp h
    exact ih (hstep s e m hs hm) hr

/-- What relates the schedule so far to the state, and every next event keeps, holds at the end. -/
theorem run_history {P : List ε → σ → Prop} {s₀ : σ} (h0 : P [] s₀)
    (hstep : ∀ es s e s', run step s₀ es = some s → P es s → step s e = some s' → P (es ++ [e]) s')
    {s : σ} {es : List ε} (h : run step s₀ es = some s) : P es s := by
  induction es using List.reverseRecOn generalizing s with
  | nil => cases h; exact h0
  | append_singleton es e ih =>
    obtain ⟨m, hm, he⟩ := run_concat_eq_some.mp h
    exact hstep es m e s hm (ih hm) he

/-- The states some schedule reaches. -/
def Reachable (step : σ → ε → Option σ) (s₀ s : σ) : Prop := ∃ es, run step s₀ es = some s

namespace Reachable
variable {s₀ s s' : σ}

theorem refl (s : σ) : Reachable step s s := ⟨[], rfl⟩

theorem of_run {es : List ε} (h : run step s₀ es = some s) : Reachable step s₀ s := ⟨es, h⟩

theorem trans (h : Reachable step s₀ s) (h' : Reachable step s s') : Reachable step s₀ s' := by
  obtain ⟨es, hes⟩ := h
  obtain ⟨fs, hfs⟩ := h'
  exact ⟨es ++ fs, run_append_eq_some.mpr ⟨s, hes, hfs⟩⟩

theorem tail {e : ε} (h : Reachable step s₀ s) (he : step s e = some s') : Reachable step s₀ s' :=
  h.trans ⟨[e], by rw [run_single, he]⟩

theorem induct {P : σ → Prop} (h0 : P s₀)
    (hstep : ∀ s e s', Reachable step s₀ s → P s → step s e = some s' → P s')
    (h : Reachable step s₀ s) : P s := by
  obtain ⟨es, hes⟩ := h
  exact run_history (P := fun _ s => P s) h0
    (fun es s e s' hr hP he => hstep s e s' ⟨es, hr⟩ hP he) hes

end Reachable

/-! ## Conditions along a run -/

/-- Every event of the schedule is taken in a state where it meets the condition `C`. -/
def Along (step : σ → ε → Option σ) (C : σ → ε → Prop) : σ → List ε → Prop
  | _, [] => True
  | s, e :: es => C s e ∧ ∀ m, step s e = some m → Along step C m es

variable {C : σ → ε → Prop} {P : σ → Prop}

instance decidableAlong [∀ s e, Decidable (C s e)] :
    (s : σ) → (es : List ε) → Decidable (Along step C s es)
  | _, [] => .isTrue trivial
  | s, e :: es =>
    match h : step s e with
    | none => decidable_of_iff (C s e) (by simp [Along, h])
    | some m =>
      have := decidableAlong m es
      decidable_of_iff (C s e ∧ Along step C m es) (by simp [Along, h])

/-- A condition that the events meet in every state. -/
theorem along_of_forall {s : σ} {es : List ε} (h : ∀ s, ∀ e ∈ es, C s e) : Along step C s es := by
  induction es generalizing s with
  | nil => trivial
  | cons e es ih =>
    refine ⟨h s e List.mem_cons_self, fun m _ => ?_⟩
    exact ih fun s e he => h s e (List.mem_cons_of_mem _ he)

/-- What every step that meets the condition keeps, every run along which it holds keeps. -/
theorem run_along (hstep : ∀ s e s', P s → C s e → step s e = some s' → P s')
    {s s' : σ} {es : List ε} (hs : P s) (hC : Along step C s es) (h : run step s es = some s') :
    P s' := by
  induction es generalizing s with
  | nil => cases h; exact hs
  | cons e es ih =>
    obtain ⟨m, hm, hr⟩ := run_cons_eq_some.mp h
    exact ih (hstep s e m hs hC.1 hm) (hC.2 m hm) hr

theorem along_append {s : σ} {es fs : List ε} :
    Along step C s (es ++ fs) ↔
      Along step C s es ∧ ∀ m, run step s es = some m → Along step C m fs := by
  induction es generalizing s with
  | nil => simp [Along]
  | cons e es ih =>
    simp only [List.cons_append, Along, ih, and_assoc]
    refine and_congr_right fun _ => ⟨fun h => ⟨fun m hm => (h m hm).1, ?_⟩, ?_⟩
    · intro m hm
      obtain ⟨k, hk, hr⟩ := run_cons_eq_some.mp hm
      exact (h k hk).2 m hr
    · rintro ⟨h1, h2⟩ m hm
      exact ⟨h1 m hm, fun k hk => h2 k (run_cons_eq_some.mpr ⟨m, hm, hk⟩)⟩

theorem along_concat {s : σ} {es : List ε} {e : ε} :
    Along step C s (es ++ [e]) ↔
      Along step C s es ∧ ∀ m, run step s es = some m → C m e := by
  simp [along_append, Along]

/-- Conditions that agree where the invariant holds, which each of them keeps, hold along the same
runs. -/
theorem along_congr {D : σ → ε → Prop} {I : σ → Prop}
    (hI : ∀ s e s', I s → C s e → step s e = some s' → I s')
    (hCD : ∀ s e, I s → (C s e ↔ D s e)) {s : σ} {es : List ε} (hs : I s) :
    Along step C s es ↔ Along step D s es := by
  induction es generalizing s with
  | nil => exact Iff.rfl
  | cons e es ih =>
    constructor
    · rintro ⟨hC, hrest⟩
      exact ⟨(hCD s e hs).mp hC, fun m hm => (ih (hI s e m hs hC hm)).mp (hrest m hm)⟩
    · rintro ⟨hD, hrest⟩
      have hC := (hCD s e hs).mpr hD
      exact ⟨hC, fun m hm => (ih (hI s e m hs hC hm)).mpr (hrest m hm)⟩

/-- A condition that every step has to meet to keep `P`: it holds along a run exactly when `P` holds in
every state of the run. What the condition keeps may be used to show this. -/
theorem along_iff_invariant {I : σ → Prop}
    (hI : ∀ s e s', I s → P s → C s e → step s e = some s' → I s')
    (hkeep : ∀ s e s', I s → P s → step s e = some s' → (P s' ↔ C s e)) {s s' : σ} {es : List ε}
    (hIs : I s) (hs : P s) (h : run step s es = some s') :
    Along step C s es ↔ ∀ pre m, pre <+: es → run step s pre = some m → P m := by
  have hboth : ∀ pre m, Along step C s pre → run step s pre = some m → I m ∧ P m := by
    intro pre m hC hm
    refine run_along (P := fun k => I k ∧ P k) ?_ ⟨hIs, hs⟩ hC hm
    rintro k e k' ⟨hIk, hPk⟩ hCe he
    exact ⟨hI k e k' hIk hPk hCe he, (hkeep k e k' hIk hPk he).mpr hCe⟩
  constructor
  · rintro hC pre m ⟨rest, rfl⟩ hm
    exact (hboth pre m (along_append.mp hC).1 hm).2
  · intro hP
    induction es using List.reverseRecOn generalizing s' with
    | nil => trivial
    | append_singleton es e ih =>
      obtain ⟨k, hk, he⟩ := run_concat_eq_some.mp h
      have hC := ih hk fun pre m hp => hP pre m (hp.trans (List.prefix_append _ _))
      refine along_concat.mpr ⟨hC, fun m hm => ?_⟩
      obtain rfl : k = m := Option.some.inj (hk.symm.trans hm)
      obtain ⟨hIk, hPk⟩ := hboth es k hC hk
      exact (hkeep k e s' hIk hPk he).mp (hP _ s' List.prefix_rfl h)

/-! ## What happens in a run -/

/-- The run goes through the state. -/
def Visits (step : σ → ε → Option σ) (s : σ) (es : List ε) (m : σ) : Prop :=
  ∃ pre, pre <+: es ∧ run step s pre = some m

/-- Some step of the run leads from a state to another one as `Q` says. -/
def Takes (step : σ → ε → Option σ) (s : σ) (es : List ε) (Q : σ → σ → Prop) : Prop :=
  ∃ pre e m m', pre ++ [e] <+: es ∧ run step s pre = some m ∧ step m e = some m' ∧ Q m m'

theorem visits_self (s : σ) (es : List ε) : Visits step s es s := ⟨[], List.nil_prefix, rfl⟩

theorem Visits.of_step {s m m' : σ} {pre es : List ε} {e : ε} (hpre : pre ++ [e] <+: es)
    (hm : run step s pre = some m) (he : step m e = some m') : Visits step s es m' :=
  ⟨pre ++ [e], hpre, run_concat_eq_some.mpr ⟨m, hm, he⟩⟩

/-- The event that comes next is taken where it meets the condition. -/
theorem Along.of_prefix {s m : σ} {pre es : List ε} {e : ε} (h : Along step C s es)
    (hpre : pre ++ [e] <+: es) (hm : run step s pre = some m) : C m e := by
  obtain ⟨rest, rfl⟩ := hpre
  exact (along_concat.mp (along_append.mp h).1).2 m hm

/-- What every step of the run keeps; that it is one of the run may be used. -/
theorem run_steps {s s' : σ} {es : List ε} (hs : P s)
    (hstep : ∀ pre e m m', pre ++ [e] <+: es → run step s pre = some m → step m e = some m' → P m → P m')
    (h : run step s es = some s') : P s' := by
  refine run_history (P := fun pre m => pre <+: es → P m) (fun _ => hs) ?_ h List.prefix_rfl
  intro pre m e m' hm hP he hpre
  exact hstep pre e m m' hpre hm he (hP ((List.prefix_append pre [e]).trans hpre))

/-! ## Simulation -/

/-- A system whose every step is, under `f`, a step of another one or no change: what it reaches, the
other one reaches. -/
theorem Reachable.project {step' : τ → δ → Option τ} {f : σ → τ} {s s' : σ}
    (hstep : ∀ m e m', Reachable step s m → step m e = some m' →
      f m' = f m ∨ ∃ d, step' (f m) d = some (f m'))
    (h : Reachable step s s') : Reachable step' (f s) (f s') := by
  refine h.induct (P := fun m => Reachable step' (f s) (f m)) (.refl _) ?_
  intro m e m' hm ih he
  rcases hstep m e m' hm he with heq | ⟨d, hd⟩
  · rwa [heq]
  · exact ih.tail hd

end EventRuns
