import Auth8.Devices.Registrations

/-! # Retired devices

`deleteDevice` deletes the first row whose `regid` is like the one it is given. It retires the device, in
every order of the rows, exactly where no pattern match but one row carries the `regid` at all. -/
namespace Auth8.Devices
open KeyedTable LikePattern Persistent Jaxrs
set_option autoImplicit false

/-! ## Histories of both calls -/

inductive DeviceCall where
  | regNewDevice (faults : Faults) (email regId name : Option String)
  | deleteDevice (faults : Faults) (regid : Option String)
  deriving DecidableEq, Repr

def DeviceCall.apply (order : DeviceOrder) (t : DeviceTable) : DeviceCall → DeviceTable
  | .regNewDevice faults email regId name => (Jaxrs.regNewDevice order faults t email regId name).2
  | .deleteDevice faults regid => (Jaxrs.deleteDevice order faults t regid).2

/-- The table after the calls, each of which sees the rows in an order of its own. -/
def after (t : DeviceTable) (calls : List (DeviceOrder × DeviceCall)) : DeviceTable :=
  calls.foldl (fun t call => call.2.apply call.1 t) t

def DeviceCall.registers (regid : String) : DeviceCall → Prop
  | .regNewDevice _ _ regId _ => regId = some regid
  | .deleteDevice _ _ => False

variable {order : DeviceOrder} {faults : Faults} {t t' : DeviceTable} {regid : String}

def Free (t : DeviceTable) (regid : String) : Prop := ∀ row ∈ t.rows, row.2.regid ≠ regid

theorem Free.commitReg {email regId name : Option String} {plan : RegPlan} (h : Free t regid)
    (hne : regId ≠ some regid) (hc : commitReg t email regId name plan = some t') : Free t' regid := by
  intro row hrow
  cases plan with
  | insert =>
    obtain ⟨new, hnew, rfl⟩ := Option.map_eq_some_iff.mp hc
    rcases mem_insert.mp hrow with hrow | rfl
    · exact h row hrow
    · rw [validate_regid hnew] at hne
      exact fun heq => hne (congrArg some heq)
  | update found =>
    obtain ⟨new, hnew, rfl⟩ := Option.map_eq_some_iff.mp hc
    obtain ⟨old, hold, rfl⟩ := mem_update.mp hrow
    rw [validate_regid hnew] at hne
    unfold updateRow
    split
    · unfold writeColumns
      dsimp only
      split
      · exact h old hold
      · exact fun heq => hne (congrArg some heq)
    · exact h old hold

theorem Free.delete (h : Free t regid) (id : ℕ) : Free (t.delete id) regid :=
  fun row hrow => h row (mem_delete.mp hrow).1

/-- Only a call that registers the `regid` brings it back. -/
theorem Free.apply {call : DeviceCall} (h : Free t regid) (hne : ¬ call.registers regid) :
    Free (call.apply order t) regid := by
  cases call with
  | regNewDevice faults email regId name =>
    rw [DeviceCall.apply]
    rcases regNewDevice_cases order faults t email regId name with
      ⟨t', ⟨_, _, hc⟩, hcall⟩ | ⟨_, _, hcall⟩ | ⟨_, _, _, hcall⟩
    · rw [hcall]
      exact h.commitReg hne hc
    · rw [hcall]
      exact h
    · rw [hcall]
      exact h
  | deleteDevice faults r =>
    rw [DeviceCall.apply]
    rcases deleteDevice_cases order faults t r with ⟨row, _, _, _, hcall⟩ | ⟨_, hcall⟩
    · rw [hcall]
      exact h.delete row.1
    · rw [hcall]
      exact h

theorem Free.after {calls : List (DeviceOrder × DeviceCall)} (h : Free t regid)
    (hne : ∀ call ∈ calls, ¬ call.2.registers regid) : Free (after t calls) regid := by
  induction calls generalizing t with
  | nil => exact h
  | cons call calls ih =>
    exact ih (h.apply (hne call List.mem_cons_self)) fun c hc => hne c (List.mem_cons_of_mem _ hc)

theorem Free.lookup (h : Free t regid) {email : String} {device : Device}
    (hd : lookup order t email = .found device) : device.regid ≠ regid := by
  unfold Devices.lookup at hd
  split at hd
  · rename_i row hrow
    cases hd
    exact h row (of_first hrow).1
  · cases hd

/-! ## A deletion -/

/-- After the call has answered `Deleted`, no row carries the `regid` and no push goes to it, until a
call registers it again; all rows with another `regid` are unchanged. -/
def Retires (order : DeviceOrder) (faults : Faults) (t : DeviceTable) (regid : String) : Prop :=
  (deleteDevice order faults t (some regid)).1 = some deleted →
    (∀ calls, (∀ call ∈ calls, ¬ call.2.registers regid) →
      Free (after (deleteDevice order faults t (some regid)).2 calls) regid ∧
      ∀ order' email device,
        lookup order' (after (deleteDevice order faults t (some regid)).2 calls) email =
          .found device → device.regid ≠ regid) ∧
    ∀ row ∈ t.rows, row.2.regid ≠ regid → row ∈ (deleteDevice order faults t (some regid)).2.rows

/-- Every row the pattern matches is the one row that carries the `regid`. -/
def MatchesOne (t : DeviceTable) (regid : String) : Prop :=
  ∀ row ∈ t.rows, like regid row.2.regid = true → ∀ q ∈ t.rows, q.2.regid = regid ↔ q = row

theorem MatchesOne.retires (h : MatchesOne t regid) : Retires order faults t regid := by
  intro hdel
  rcases deleteDevice_cases order faults t (some regid) with ⟨row, _, hrow, _, hcall⟩ | ⟨_, hcall⟩
  · obtain ⟨hmem, hlike⟩ := of_first hrow
    have honly := h row hmem hlike
    have hfree : Free (t.delete row.1) regid := by
      intro q hq hregid
      obtain ⟨hq, hid⟩ := mem_delete.mp hq
      exact hid (congrArg Prod.fst ((honly q hq).mp hregid))
    rw [hcall]
    refine ⟨fun calls hcalls => ⟨hfree.after hcalls, fun _ _ _ hd => (hfree.after hcalls).lookup hd⟩, ?_⟩
    intro q hq hne
    refine mem_delete.mpr ⟨hq, fun hid => hne ?_⟩
    exact (honly q hq).mpr (t.eq_of_id hq hmem hid)
  · rw [hcall] at hdel
    cases hdel

/-- The row matched can be the one that is deleted. -/
theorem matchesOne_of_retires (h : ∀ order faults, Retires order faults t regid) :
    MatchesOne t regid := by
  intro row hrow hlike q hq
  have hquery : queryRegid (.putFirst row) t (some regid) = some row := first_putFirst hrow hlike
  have hcall : deleteDevice (.putFirst row) .none t (some regid) = (some deleted, t.delete row.1) := by
    rw [deleteDevice, hquery]
    rfl
  have hretires := h (.putFirst row) .none
  rw [Retires, hcall] at hretires
  obtain ⟨hgone, hkept⟩ := hretires rfl
  have hfree : Free (t.delete row.1) regid := (hgone [] (by simp)).1
  constructor
  · intro hregid
    by_contra hne
    exact hfree q (mem_delete.mpr ⟨hq, fun hid => hne (t.eq_of_id hq hrow hid)⟩) hregid
  · rintro rfl
    by_contra hne
    exact (mem_delete.mp (hkept q hrow hne)).2 rfl

theorem retires_iff (nextId : ℕ) (history : List (DeviceOrder × DeviceCall)) (regid : String) :
    (∀ order faults, Retires order faults (after (.empty nextId) history) regid) ↔
      MatchesOne (after (.empty nextId) history) regid :=
  ⟨matchesOne_of_retires, fun h _ _ => h.retires⟩

/-- A phone registered for two emails stays registered for the second when it is deleted. -/
theorem twoEmails_not_retired :
    ¬ ∀ (nextId : ℕ) (history : List (DeviceOrder × DeviceCall)) (order : DeviceOrder)
      (faults : Faults) (regid : String),
      Retires order faults (after (.empty nextId) history) regid := by
  intro h
  have hretires := h 200
    [(.asStored _, .regNewDevice .none (some "jane@example.com") (some "gcm1") (some "phone")),
      (.asStored _, .regNewDevice .none (some "work@example.com") (some "gcm1") (some "phone"))]
    (.asStored _) .none "gcm1"
  have hfree := ((hretires (by decide +kernel)).1 [] nofun).1
    (201, ⟨"work@example.com", some "phone", "gcm1"⟩)
  exact hfree (by decide +kernel) rfl

end Auth8.Devices
