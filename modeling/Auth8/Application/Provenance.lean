import Auth8.Application.System

/-! # Where the rows of the table come from

A row keeps the email it was inserted with, and its `regid` is one that the commit of a `regNewDevice` call
has left in it: the call has inserted the row, or its email is a pattern of the row's email. What is known
of the rows there from the start and of these is known of all rows, in every interleaving of the calls. -/
namespace Auth8.Application
open EventRuns KeyedTable Persistent Jaxrs Devices
set_option autoImplicit false

variable {K : String → String → Prop} {t t' : DeviceTable} {order : DeviceOrder} {s s' : DeviceState}

/-! ## What a commit leaves -/

def HasDevice (t : DeviceTable) (email regid : String) : Prop :=
  ∃ row ∈ t.rows, row.2.email = email ∧ row.2.regid = regid

/-- A call with this email may write a row of the other one. -/
def Selects (call : Option String) (email : String) : Prop :=
  call = some email ∨ likeExp call email = true

/-- The commit of a `regNewDevice` call with this email and `regid` leads from `s` to `s'`. -/
def Commits (call : Option String) (regid : String) (s s' : DeviceState) : Prop :=
  ∃ i name plan, s.calls i = some (.reg call (some regid) name, .commitReg plan) ∧
    commitReg s.table call (some regid) name plan = some s'.table ∧
    s'.calls i = some (.reg call (some regid) name, .ended)

/-- A commit leaves the `regid` in a row of the email. -/
def Writes (email regid : String) (s s' : DeviceState) : Prop :=
  (∃ call, Commits call regid s s' ∧ Selects call email) ∧ HasDevice s'.table email regid

/-! ## Runs -/

section
variable {σ ε : Type} (step : σ → ε → Option σ) (devices : σ → DeviceState) (s₀ : σ) (es : List ε)

/-- In some state of the run the table has a row with this email and this `regid`. -/
def Stored (email regid : String) : Prop :=
  ∃ m, Visits step s₀ es m ∧ HasDevice (devices m).table email regid

/-- The row was there from the start, or in the run a `regNewDevice` call with exactly this email and this
`regid` has committed, and left it in the table. -/
def RegisteredFor (email regid : String) : Prop :=
  HasDevice (devices s₀).table email regid ∨ Takes step s₀ es fun m m' =>
    Commits (some email) regid (devices m) (devices m') ∧ HasDevice (devices m').table email regid

end

/-! ## The invariant -/

/-- A planned update selects the row by its email, as long as the row is there. -/
structure Planned (t : DeviceTable) (email : Option String) (row : ℕ × Device) : Prop where
  selected : likeExp email row.2.email = true
  old : row.1 < t.nextId
  same : ∀ r ∈ t.rows, r.1 = row.1 → r.2.email = row.2.email

/-- What a call is going to update is planned. -/
def Plans (t : DeviceTable) (d : Call × CallPc) : Prop :=
  ∀ email regId name row, d = (.reg email regId name, .commitReg (.update row)) → Planned t email row

structure Provenance (K : String → String → Prop) (s : DeviceState) : Prop where
  rows : ∀ email regid, HasDevice s.table email regid → K email regid
  plans : ∀ i d, s.calls i = some d → Plans s.table d

theorem provenance_init (h : ∀ email regid, HasDevice t email regid → K email regid) :
    Provenance K (.init t) := by
  refine ⟨h, ?_⟩
  intro i d h
  cases h

/-- How a table may change between the query and the commit of a call. -/
structure Grows (t t' : DeviceTable) : Prop where
  next : t.nextId ≤ t'.nextId
  row : ∀ r ∈ t'.rows, t.nextId ≤ r.1 ∨ ∃ q ∈ t.rows, q.1 = r.1 ∧ q.2.email = r.2.email

theorem Grows.refl (t : DeviceTable) : Grows t t :=
  ⟨Nat.le_refl _, fun r hr => .inr ⟨r, hr, rfl, rfl⟩⟩

theorem Planned.grow {email : Option String} {row : ℕ × Device} (h : Planned t email row)
    (hgrows : Grows t t') : Planned t' email row := by
  refine ⟨h.selected, Nat.lt_of_lt_of_le h.old hgrows.next, fun r hr hid => ?_⟩
  obtain hnew | ⟨q, hq, hqid, hemail⟩ := hgrows.row r hr
  · have hold := h.old
    omega
  · rw [← hemail]
    exact h.same q hq (hqid.trans hid)

/-! ## What a commit writes -/

/-- The row was there with its email and its `regid`, or the call has given the latter. -/
def Kept (t : DeviceTable) (email regId : Option String) (r : ℕ × Device) : Prop :=
  HasDevice t r.2.email r.2.regid ∨ regId = some r.2.regid ∧ Selects email r.2.email

theorem update_rows {email regId name : Option String} {row : ℕ × Device} {new : Device}
    (hplan : Planned t email row) (hnew : validate (some row.2.email) regId name = some new) :
    Grows t (t.update row.1 (writeColumns row.2 new)) ∧
      ∀ r ∈ (t.update row.1 (writeColumns row.2 new)).rows, Kept t email regId r := by
  have hemail : new.email = row.2.email := (Option.some.inj (validate_email hnew)).symm
  have hsame : ∀ q, (updateRow row.1 (writeColumns row.2 new) q).2.email = q.2.email := by
    intro q
    unfold updateRow
    split
    · exact writeColumns_email hemail q.2
    · rfl
  refine ⟨⟨Nat.le_refl _, fun r hr => ?_⟩, fun r hr => ?_⟩
  · obtain ⟨q, hq, rfl⟩ := mem_update.mp hr
    exact .inr ⟨q, hq, (updateRow_fst _ _ _).symm, (hsame q).symm⟩
  · obtain ⟨q, hq, rfl⟩ := mem_update.mp hr
    by_cases hregid : (updateRow row.1 (writeColumns row.2 new) q).2.regid = q.2.regid
    · exact .inl ⟨q, hq, (hsame q).symm, hregid.symm⟩
    · right
      -- only the row of the plan changes, and its `regid` only where the call asks for another one
      have hid : q.1 = row.1 := by
        by_contra hid
        exact hregid (by rw [updateRow, if_neg hid])
      have hwritten : (updateRow row.1 (writeColumns row.2 new) q).2.regid = new.regid := by
        rw [updateRow, if_pos hid] at hregid ⊢
        refine if_neg fun hread => hregid ?_
        exact if_pos hread
      refine ⟨by rw [hwritten]; exact validate_regid hnew, .inr ?_⟩
      rw [hsame, hplan.same q hq hid]
      exact hplan.selected

theorem insert_rows {email regId name : Option String} {new : Device}
    (hnew : validate email regId name = some new) :
    Grows t (t.insert new) ∧ ∀ r ∈ (t.insert new).rows, Kept t email regId r := by
  refine ⟨⟨Nat.le_succ _, fun r hr => ?_⟩, fun r hr => ?_⟩
  · cases mem_insert.mp hr with
    | inl hr => exact .inr ⟨r, hr, rfl, rfl⟩
    | inr hr => exact .inl (by rw [hr])
  · cases mem_insert.mp hr with
    | inl hr => exact .inl ⟨r, hr, rfl, rfl⟩
    | inr hr =>
      rw [hr]
      exact .inr ⟨validate_regid hnew, .inl (validate_email hnew)⟩

theorem delete_rows (id : ℕ) : Grows t (t.delete id) ∧
    ∀ r ∈ (t.delete id).rows, HasDevice t r.2.email r.2.regid := by
  refine ⟨⟨Nat.le_refl _, fun r hr => ?_⟩, fun r hr => ?_⟩
  · exact .inr ⟨r, (mem_delete.mp hr).1, rfl, rfl⟩
  · exact ⟨r, (mem_delete.mp hr).1, rfl, rfl⟩

/-! ## One event -/

/-- What a step of a call does: it changes no row, or it is the commit that ends the call. -/
structure Stepped (t t' : DeviceTable) (c : Call) (pc q : CallPc) : Prop where
  grows : Grows t t'
  rows : ∀ r ∈ t'.rows, HasDevice t r.2.email r.2.regid ∨
    q = .ended ∧ ∃ email name plan, c = .reg email (some r.2.regid) name ∧ pc = .commitReg plan ∧
      commitReg t email (some r.2.regid) name plan = some t' ∧ Selects email r.2.email
  plan : Plans t' (c, q)

theorem stepped_of_read {c : Call} {pc q : CallPc} (hplan : Plans t (c, q)) : Stepped t t c pc q :=
  ⟨.refl t, fun r hr => .inl ⟨r, hr, rfl, rfl⟩, hplan⟩

theorem planned_of_plan {email : Option String} {row : ℕ × Device}
    (h : planReg order t email = .update row) : Planned t email row := by
  obtain ⟨hrow, hlike⟩ := planReg_update h
  refine ⟨hlike, t.fresh row hrow, fun r hr hid => ?_⟩
  rw [t.eq_of_id hr hrow hid]

theorem stepped_of_commit {email regId name : Option String} {plan : RegPlan}
    (hcommit : commitReg t email regId name plan = some t')
    (h : Grows t t' ∧ ∀ r ∈ t'.rows, Kept t email regId r) :
    Stepped t t' (.reg email regId name) (.commitReg plan) .ended := by
  refine ⟨h.1, fun r hr => ?_, fun _ _ _ _ hq => by cases hq⟩
  cases h.2 r hr with
  | inl hold => exact .inl hold
  | inr hnew =>
    obtain ⟨rfl, hselects⟩ := hnew
    exact .inr ⟨rfl, email, name, plan, rfl, rfl, hcommit, hselects⟩

theorem call_stepped {c : Call} {pc q : CallPc} (hplan : Plans t (c, pc))
    (h : c.step order t pc = some (q, t')) : Stepped t t' c pc q := by
  cases c with
  | reg email regId name =>
    cases pc with
    | query =>
      cases h
      refine stepped_of_read fun email' regId' name' row hd => ?_
      obtain ⟨hc, hq⟩ := Prod.mk.inj hd
      cases hc
      exact planned_of_plan (CallPc.commitReg.inj hq)
    | commitReg plan =>
      cases h
      cases hcommit : commitReg t email regId name plan with
      | none => exact stepped_of_read fun _ _ _ _ hd => by cases hd
      | some t' =>
        refine stepped_of_commit hcommit ?_
        cases plan with
        | update row =>
          obtain ⟨new, hnew, rfl⟩ := Option.map_eq_some_iff.mp hcommit
          exact update_rows (hplan email regId name row rfl) hnew
        | insert =>
          obtain ⟨new, hnew, rfl⟩ := Option.map_eq_some_iff.mp hcommit
          exact insert_rows hnew
    | _ => cases h
  | del regid =>
    cases pc with
    | query =>
      simp only [Call.step] at h
      split at h <;> cases h <;> exact stepped_of_read fun _ _ _ _ hd => by cases hd
    | commitDelete row =>
      cases h
      obtain ⟨hgrows, hrows⟩ := delete_rows (t := t) row.1
      exact ⟨hgrows, fun r hr => .inl (hrows r hr), fun _ _ _ _ hd => by cases hd⟩
    | _ => cases h

/-- What is known of the rows is known of them after an event, if it is of what a commit writes. -/
theorem provenance_step {e : DeviceEvent} (h : Provenance K s)
    (he : deviceStep order s e = some s')
    (hK : ∀ email regid, Writes email regid s s' → K email regid) : Provenance K s' := by
  cases e with
  | arrive i c =>
    obtain ⟨hi, rfl⟩ := whenever_eq_some.mp he
    refine ⟨h.rows, ?_⟩
    exact forall_update (P := Plans s.table) rfl (fun _ _ _ _ hd => by cases hd) fun j d _ => h.plans j d
  | run i =>
    obtain ⟨⟨c, pc⟩, hc, he⟩ := Option.bind_eq_some_iff.mp he
    obtain ⟨⟨q, t⟩, hstep, rfl⟩ := Option.map_eq_some_iff.mp he
    have hstepped : Stepped s.table t c pc q := call_stepped (h.plans i _ hc) hstep
    refine ⟨?_, ?_⟩
    · rintro _ _ ⟨row, hrow, rfl, rfl⟩
      cases hstepped.rows row hrow with
      | inl hold => exact h.rows _ _ hold
      | inr hnew =>
        obtain ⟨rfl, email, name, plan, rfl, rfl, hcommit, hselects⟩ := hnew
        exact hK _ _ ⟨⟨email, ⟨i, name, plan, hc, hcommit, Function.update_self ..⟩, hselects⟩,
          row, hrow, rfl, rfl⟩
    · exact forall_update (P := Plans t) rfl hstepped.plan fun j d _ hd email regId name row hp =>
        (h.plans j d hd email regId name row hp).grow hstepped.grows

end Auth8.Application
