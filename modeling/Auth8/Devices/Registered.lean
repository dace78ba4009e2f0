import Auth8.Jaxrs.V1RegDevice

/-! # What `Registered` means

`regNewDevice` answers `Registered` after a try whose last catch clause only prints, and it updates the
first row whose email is like the given one. The answer means that the device is registered, in every
order of the rows, exactly where nothing is left for that clause to catch and the row updated is a row of
the email. -/
namespace Auth8.Devices
open KeyedTable LikePattern Persistent Jaxrs
set_option autoImplicit false

variable {order : DeviceOrder} {faults : Faults} {t t' : DeviceTable}
variable {email regId name : Option String}

def IsRegistration (email regId name : Option String) (device : Device) : Prop :=
  email = some device.email ∧ regId = some device.regid ∧ name = device.name

/-- A call that answers `Registered` has committed, and a row holds exactly its arguments. -/
def AnswerMeans (order : DeviceOrder) (faults : Faults) (t : DeviceTable)
    (email regId name : Option String) : Prop :=
  (regNewDevice order faults t email regId name).1 = some registered →
    (∃ t', Written order faults t email regId name t') ∧
      ∃ row ∈ (regNewDevice order faults t email regId name).2.rows,
        IsRegistration email regId name row.2

/-- The query succeeds; and where it finds rows, the commit succeeds, each of them can be updated, and it
is a row of this email unless the table already has the row that is asked for. -/
structure CanAnswer (faults : Faults) (t : DeviceTable) (email regId name : Option String) : Prop where
  query : faults.query = false
  commit : ∀ row ∈ t.rows, likeExp email row.2.email = true → faults.commit = false
  valid : ∀ row ∈ t.rows, likeExp email row.2.email = true →
    (validate (some row.2.email) regId name).isSome = true
  same : ∀ row ∈ t.rows, likeExp email row.2.email = true →
    email = some row.2.email ∨ ∃ q ∈ t.rows, IsRegistration email regId name q.2

theorem planReg_putFirst {row : ℕ × Device} (hrow : row ∈ t.rows)
    (hlike : likeExp email row.2.email = true) : planReg (.putFirst row) t email = .update row := by
  have hquery : queryEmail (.putFirst row) t email = some row := first_putFirst hrow hlike
  rw [planReg, hquery]

theorem commitReg_insert_row {new : Device} (hnew : validate email regId name = some new) :
    ∃ row ∈ (t.insert new).rows, IsRegistration email regId name row.2 := by
  obtain ⟨he, hr, hn, _⟩ := validate_eq_some.mp hnew
  exact ⟨(t.nextId, new), mem_insert.mpr (.inr rfl), he, hr, hn⟩

/-- An update leaves a row with the arguments, or the email is another one and such a row was there. -/
theorem commitReg_update_row {row : ℕ × Device} {new : Device} (hrow : row ∈ t.rows)
    (hnew : validate (some row.2.email) regId name = some new) :
    (∃ q ∈ (t.update row.1 (writeColumns row.2 new)).rows, IsRegistration email regId name q.2) ↔
      email = some row.2.email ∨ ∃ q ∈ t.rows, IsRegistration email regId name q.2 := by
  obtain ⟨he, hr, hn, _⟩ := validate_eq_some.mp hnew
  have hmem : ∀ q, q ∈ (t.update row.1 (writeColumns row.2 new)).rows ↔
      q = (row.1, new) ∨ q ∈ t.rows ∧ q.1 ≠ row.1 := by
    intro q
    rw [mem_update_of_mem (a := row.2) hrow, writeColumns_self]
  constructor
  · rintro ⟨q, hq, hreg⟩
    rcases (hmem q).mp hq with rfl | ⟨hq, _⟩
    · exact .inl (hreg.1.trans he.symm)
    · exact .inr ⟨q, hq, hreg⟩
  · rintro (hemail | ⟨q, hq, hreg⟩)
    · exact ⟨_, (hmem _).mpr (.inl rfl), hemail.trans he, hr, hn⟩
    · by_cases hid : q.1 = row.1
      · obtain rfl := t.eq_of_id hq hrow hid
        exact ⟨_, (hmem _).mpr (.inl rfl), hreg.1.trans he, hr, hn⟩
      · exact ⟨q, (hmem _).mpr (.inr ⟨hq, hid⟩), hreg⟩

theorem CanAnswer.means (h : CanAnswer faults t email regId name) :
    AnswerMeans order faults t email regId name := by
  intro hanswer
  rcases regNewDevice_cases order faults t email regId name with
    ⟨t', hwritten, hcall⟩ | ⟨hnot, hcaught, hcall⟩ | ⟨_, _, _, hcall⟩
  · refine ⟨⟨t', hwritten⟩, ?_⟩
    obtain ⟨_, _, hc⟩ := hwritten
    rw [hcall]
    cases hplan : planReg order t email with
    | insert =>
      rw [hplan] at hc
      obtain ⟨new, hnew, rfl⟩ := Option.map_eq_some_iff.mp hc
      exact commitReg_insert_row hnew
    | update row =>
      obtain ⟨hrow, hlike⟩ := planReg_update hplan
      rw [hplan] at hc
      obtain ⟨new, hnew, rfl⟩ := Option.map_eq_some_iff.mp hc
      exact (commitReg_update_row hrow hnew).mpr (h.same row hrow hlike)
  · exfalso
    rcases hcaught with hquery | ⟨row, hplan⟩
    · rw [h.query] at hquery
      cases hquery
    · obtain ⟨hrow, hlike⟩ := planReg_update hplan
      obtain ⟨new, hnew⟩ := Option.isSome_iff_exists.mp (h.valid row hrow hlike)
      refine hnot (t.update row.1 (writeColumns row.2 new)) ⟨h.query, h.commit row hrow hlike, ?_⟩
      rw [hplan, commitReg, hnew]
      rfl
  · rw [hcall] at hanswer
    cases hanswer

/-- What a call that finds the row does with it. -/
theorem update_of_answerMeans (h : ∀ order, AnswerMeans order faults t email regId name)
    {row : ℕ × Device} (hrow : row ∈ t.rows) (hlike : likeExp email row.2.email = true) :
    faults.query = false ∧ faults.commit = false ∧
      ∃ new, validate (some row.2.email) regId name = some new ∧
        (email = some row.2.email ∨ ∃ q ∈ t.rows, IsRegistration email regId name q.2) := by
  have hplan := planReg_putFirst hrow hlike
  have hmeans := h (.putFirst row)
  rcases regNewDevice_cases (.putFirst row) faults t email regId name with
    ⟨t', ⟨hquery, hcommit, hc⟩, hcall⟩ | ⟨hnot, _, hcall⟩ | ⟨_, _, hinsert, _⟩
  · rw [AnswerMeans, hcall] at hmeans
    rw [hplan] at hc
    obtain ⟨new, hnew, rfl⟩ := Option.map_eq_some_iff.mp hc
    exact ⟨hquery, hcommit, new, hnew, (commitReg_update_row hrow hnew).mp (hmeans rfl).2⟩
  · rw [AnswerMeans, hcall] at hmeans
    obtain ⟨t', ht'⟩ := (hmeans rfl).1
    exact absurd ht' (hnot t')
  · rw [hplan] at hinsert
    cases hinsert

theorem answerMeans_iff (faults : Faults) (t : DeviceTable) (email regId name : Option String) :
    (∀ order, AnswerMeans order faults t email regId name) ↔ CanAnswer faults t email regId name := by
  constructor
  · intro h
    refine ⟨?_, fun row hrow hlike => (update_of_answerMeans h hrow hlike).2.1, ?_, ?_⟩
    · by_contra hquery
      rw [Bool.not_eq_false] at hquery
      have hcall : regNewDevice (.asStored _) faults t email regId name = (some registered, t) := by
        rw [regNewDevice, if_pos hquery]
      have hmeans := h (.asStored _)
      rw [AnswerMeans, hcall] at hmeans
      obtain ⟨t', hwritten, _⟩ := (hmeans rfl).1
      rw [hwritten] at hquery
      cases hquery
    · intro row hrow hlike
      obtain ⟨_, _, new, hnew, _⟩ := update_of_answerMeans h hrow hlike
      rw [hnew]
      rfl
    · intro row hrow hlike
      obtain ⟨_, _, new, _, hsame⟩ := update_of_answerMeans h hrow hlike
      exact hsame
  · exact fun h _ => h.means

/-- The commit of a new `regid` fails, and the call still answers `Registered`. -/
theorem failedUpdate_answered : ¬ ∀ (order : DeviceOrder) (faults : Faults) (t : DeviceTable)
    (email regId name : Option String), AnswerMeans order faults t email regId name := by
  intro h
  have hmeans := h (.asStored _) ⟨false, true⟩
    ((empty 200).insert ⟨"jane@example.com", some "phone", "gcm1"⟩)
    (some "jane@example.com") (some "gcm2") (some "phone") (by decide +kernel)
  obtain ⟨t', _, hcommit, _⟩ := hmeans.1
  cases hcommit

end Auth8.Devices
