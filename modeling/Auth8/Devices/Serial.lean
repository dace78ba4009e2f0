import Auth8.Foundations.EventRuns
import Auth8.Jaxrs.V1RegDevice
import Mathlib.Logic.Function.Basic

/-! # Concurrent device operations

Any number of `regNewDevice` and `deleteDevice` calls, interleaved between their query and their commit.
A commit acts on what the query has found; where it would still find it, the commit is the whole call,
and the table is what the calls give one after the other in the order of their commits. -/
namespace Auth8.Devices
open EventRuns KeyedTable LikePattern Persistent Jaxrs
set_option autoImplicit false

inductive Call where
  | reg (email regId name : Option String)
  | del (regid : Option String)
  deriving DecidableEq, Repr

inductive CallPc where
  | query
  | commitReg (plan : RegPlan)
  | commitDelete (row : ℕ × Device)
  | ended
  deriving DecidableEq, Repr

def Call.run (order : DeviceOrder) (t : DeviceTable) : Call → DeviceTable
  | .reg email regId name => (regNewDevice order .none t email regId name).2
  | .del regid => (deleteDevice order .none t regid).2

/-- The query or the commit of a call; an exception ends the call. -/
def Call.step (order : DeviceOrder) (t : DeviceTable) : Call → CallPc → Option (CallPc × DeviceTable)
  | .reg email _ _, .query => some (.commitReg (planReg order t email), t)
  | .reg email regId name, .commitReg plan =>
    some (.ended, (commitReg t email regId name plan).getD t)
  | .del regid, .query =>
    match queryRegid order t regid with
    | some row => some (.commitDelete row, t)
    | none => some (.ended, t)
  | .del _, .commitDelete row => some (.ended, commitDelete t row)
  | _, _ => none

structure DeviceState where
  table : DeviceTable
  calls : ℕ → Option (Call × CallPc)

inductive DeviceEvent where
  | arrive (i : ℕ) (c : Call)
  /-- the query or the commit of the call `i` -/
  | run (i : ℕ)
  deriving DecidableEq, Repr

def DeviceState.init (t : DeviceTable) : DeviceState := ⟨t, fun _ => none⟩

def deviceStep (order : DeviceOrder) (s : DeviceState) : DeviceEvent → Option DeviceState
  | .arrive i c =>
    whenever (s.calls i = none)
      { s with calls := Function.update s.calls i (some (c, .query)) }
  | .run i =>
    (s.calls i).bind fun (c, pc) =>
      (c.step order s.table pc).map fun (q, t) =>
        { table := t, calls := Function.update s.calls i (some (c, q)) }

/-! ## The condition -/

/-- The query of the call would still find what it has found. -/
def Call.isCurrent (order : DeviceOrder) (t : DeviceTable) : Call → CallPc → Bool
  | .reg email _ _, .commitReg plan => decide (planReg order t email = plan)
  | .del regid, .commitDelete row => decide (queryRegid order t regid = some row)
  | _, _ => true

def Call.isSelfLike : Call → Bool
  | .reg (some email) _ _ => like email email
  | _ => true

/-- No commit is taken on a query that has become stale, and registered emails are like themselves. -/
def Current (order : DeviceOrder) (s : DeviceState) : DeviceEvent → Prop
  | .arrive _ c => c.isSelfLike = true
  | .run i => ∀ c ∈ s.calls i, c.1.isCurrent order s.table c.2 = true

instance (order : DeviceOrder) (s : DeviceState) (e : DeviceEvent) : Decidable (Current order s e) :=
  match e with
  | .arrive _ c => inferInstanceAs (Decidable (c.isSelfLike = true))
  | .run i => inferInstanceAs (Decidable (∀ c ∈ s.calls i, c.1.isCurrent order s.table c.2 = true))

section
variable {order : DeviceOrder} {t t' : DeviceTable} {c : Call} {pc q : CallPc}

/-! ## One call -/

/-- A step that ends a call whose query is current is the whole call. -/
theorem Call.step_ended (hcur : c.isCurrent order t pc = true)
    (h : c.step order t pc = some (.ended, t')) : t' = c.run order t := by
  cases c with
  | reg email regId name =>
    cases pc with
    | commitReg plan =>
      obtain rfl := of_decide_eq_true hcur
      cases h
      exact (regNewDevice_table email regId name).symm
    | query => cases h
    | _ => cases h
  | del regid =>
    cases pc with
    | query =>
      cases hq : queryRegid order t regid with
      | some row =>
        simp only [Call.step, hq] at h
        cases h
      | none =>
        simp only [Call.step, hq] at h
        cases h
        rw [Call.run, deleteDevice_table, hq]
        rfl
    | commitDelete row =>
      have hq := of_decide_eq_true hcur
      cases h
      rw [Call.run, deleteDevice_table, hq]
      rfl
    | _ => cases h

theorem Call.step_table (h : c.step order t pc = some (q, t')) (hq : q ≠ .ended) : t' = t := by
  cases c with
  | reg email regId name =>
    cases pc with
    | query => cases h; rfl
    | commitReg plan => cases h; exact absurd rfl hq
    | _ => cases h
  | del regid =>
    cases pc with
    | query =>
      simp only [Call.step] at h
      split at h <;> cases h <;> rfl
    | commitDelete row => cases h; exact absurd rfl hq
    | _ => cases h

theorem Call.step_of_ended : c.step order t .ended = none := by
  cases c <;> rfl

theorem Call.run_unique (hself : c.isSelfLike = true) (h : t.UniqueOn Device.email) :
    (c.run order t).UniqueOn Device.email := by
  cases c with
  | reg email regId name =>
    rw [Call.run, regNewDevice_table]
    cases hc : commitReg t email regId name (planReg order t email) with
    | some t' =>
      refine commitReg_unique ?_ h hc
      rintro e rfl
      exact hself
    | none => exact h
  | del regid =>
    rw [Call.run, deleteDevice_table]
    cases queryRegid order t regid with
    | some row => exact h.delete
    | none => exact h

/-! ## Any number of calls -/

def serial (order : DeviceOrder) (t : DeviceTable) (calls : List (ℕ × Call)) : DeviceTable :=
  calls.foldl (fun t c => c.2.run order t) t

theorem serial_concat (t : DeviceTable) (calls : List (ℕ × Call)) (i : ℕ) (c : Call) :
    serial order t (calls ++ [(i, c)]) = c.run order (serial order t calls) := by
  simp [serial]

/-- The calls are those that have ended, each once. -/
structure Ended (s : DeviceState) (calls : List (ℕ × Call)) : Prop where
  nodup : (calls.map Prod.fst).Nodup
  mem : ∀ i c, (i, c) ∈ calls ↔ s.calls i = some (c, .ended)

structure Serialised (order : DeviceOrder) (t₀ : DeviceTable) (s : DeviceState) : Prop where
  unique : s.table.UniqueOn Device.email
  selfLike : ∀ i c, s.calls i = some c → c.1.isSelfLike = true
  serial : ∃ calls, Ended s calls ∧ s.table = serial order t₀ calls

variable {s s' : DeviceState} {t₀ : DeviceTable} {i : ℕ} {calls : List (ℕ × Call)}

theorem Ended.move (h : Ended s calls) (hi : ∀ c, s.calls i ≠ some (c, .ended)) (hq : q ≠ .ended)
    (hs' : s'.calls = Function.update s.calls i (some (c, q))) : Ended s' calls := by
  refine ⟨h.nodup, fun j d => ?_⟩
  rw [h.mem, hs']
  by_cases hj : j = i
  · subst hj
    rw [Function.update_self]
    refine iff_of_false (hi d) fun hd => ?_
    cases hd
    exact hq rfl
  · rw [Function.update_of_ne hj]

theorem Ended.concat (h : Ended s calls) (hi : ∀ c, s.calls i ≠ some (c, .ended))
    (hs' : s'.calls = Function.update s.calls i (some (c, .ended))) :
    Ended s' (calls ++ [(i, c)]) := by
  refine ⟨?_, fun j d => ?_⟩
  · rw [List.map_append, List.nodup_append]
    refine ⟨h.nodup, List.nodup_singleton _, ?_⟩
    intro j hj k hk
    obtain ⟨⟨j', d⟩, hd, rfl⟩ := List.mem_map.mp hj
    rw [List.mem_singleton.mp hk]
    rintro rfl
    exact hi d ((h.mem _ d).mp hd)
  · rw [List.mem_append, List.mem_singleton, h.mem, hs']
    by_cases hj : j = i
    · subst hj
      rw [Function.update_self, or_iff_right (hi d), Option.some.injEq]
      simp [eq_comm]
    · rw [Function.update_of_ne hj, or_iff_left]
      exact fun hd => hj (congrArg Prod.fst hd)

theorem serialised_init (h : t₀.UniqueOn Device.email) : Serialised order t₀ (.init t₀) := by
  refine ⟨h, ?_, [], ⟨List.nodup_nil, ?_⟩, rfl⟩
  · intro i c hc
    cases hc
  · intro i c
    exact iff_of_false List.not_mem_nil nofun

theorem Serialised.step {e : DeviceEvent} (h : Serialised order t₀ s) (hC : Current order s e)
    (he : deviceStep order s e = some s') : Serialised order t₀ s' := by
  obtain ⟨calls, hended, htable⟩ := h.serial
  cases e with
  | arrive i c =>
    obtain ⟨hi, rfl⟩ := whenever_eq_some.mp he
    have hselfLike := forall_update (P := fun d : Call × CallPc => d.1.isSelfLike = true)
      (g := Function.update s.calls i (some (c, .query))) rfl hC fun j d _ => h.selfLike j d
    exact ⟨h.unique, hselfLike, calls,
      hended.move (q := .query) (i := i) (by simp [hi]) nofun rfl, htable⟩
  | run i =>
    obtain ⟨⟨c, pc⟩, hc, he⟩ := Option.bind_eq_some_iff.mp he
    obtain ⟨⟨q, t⟩, hstep, rfl⟩ := Option.map_eq_some_iff.mp he
    have hself : c.isSelfLike = true := h.selfLike i _ hc
    have hcur : c.isCurrent order s.table pc = true := hC (c, pc) hc
    have hlive : ∀ d, s.calls i ≠ some (d, .ended) := by
      intro d hd
      obtain rfl : pc = .ended := congrArg Prod.snd (Option.some.inj (hc.symm.trans hd))
      rw [Call.step_of_ended] at hstep
      cases hstep
    have hselfLike := forall_update (P := fun d : Call × CallPc => d.1.isSelfLike = true)
      (g := Function.update s.calls i (some (c, q))) rfl hself fun j d _ => h.selfLike j d
    by_cases hq : q = .ended
    · subst hq
      obtain rfl := Call.step_ended hcur hstep
      refine ⟨Call.run_unique hself h.unique, hselfLike, _, hended.concat hlive rfl, ?_⟩
      rw [serial_concat, ← htable]
    · obtain rfl := Call.step_table hstep hq
      exact ⟨h.unique, hselfLike, calls, hended.move hlive hq rfl, htable⟩

/-- In every run in which no commit is taken on a stale query, the table keeps the emails distinct and is
the one the calls that have ended give one after the other. -/
theorem serialised_of_run (hunique : t₀.UniqueOn Device.email) {es : List DeviceEvent}
    (hC : Along (deviceStep order) (Current order) (.init t₀) es)
    (h : run (deviceStep order) (.init t₀) es = some s) :
    s.table.UniqueOn Device.email ∧
      ∃ calls, Ended s calls ∧ s.table = serial order t₀ calls := by
  have hs := run_along (P := Serialised order t₀) (fun _ _ _ => Serialised.step)
    (serialised_init hunique) hC h
  exact ⟨hs.unique, hs.serial⟩

end

def twoAccounts : List DeviceEvent :=
  [.arrive 0 (.reg (some "jane@example.com") (some "gcm1") (some "phone")),
    .arrive 1 (.reg (some "joe@example.com") (some "gcm2") (some "tablet")),
    .run 0, .run 1, .run 1, .run 0]

theorem twoAccounts_serialised :
    ∃ s, run (deviceStep (.asStored _)) (.init (.empty 200)) twoAccounts = some s ∧
      s.table.UniqueOn Device.email ∧
      ∃ calls, Ended s calls ∧ s.table = serial (.asStored _) (.empty 200) calls := by
  have hrun := (Option.some_get (by decide +kernel :
    (run (deviceStep (.asStored _)) (.init (.empty 200)) twoAccounts).isSome)).symm
  exact ⟨_, hrun, serialised_of_run (uniqueOn_empty _ _) (by decide +kernel) hrun⟩

/-- The same account registers twice at the same time. -/
def oneAccountTwice : List DeviceEvent :=
  [.arrive 0 (.reg (some "jane@example.com") (some "gcm1") (some "phone")),
    .arrive 1 (.reg (some "jane@example.com") (some "gcm2") (some "tablet")),
    .run 0, .run 1, .run 0, .run 1]

theorem oneAccountTwice_duplicated :
    (run (deviceStep (.asStored _)) (.init (.empty 200)) oneAccountTwice).map
        (fun s => (s.table.rows, (s.calls 0).map Prod.snd, (s.calls 1).map Prod.snd)) =
      some ([(200, ⟨"jane@example.com", some "phone", "gcm1"⟩),
        (201, ⟨"jane@example.com", some "tablet", "gcm2"⟩)], some .ended, some .ended) := by
  decide +kernel

end Auth8.Devices
