import Auth8.Jaxrs.DeleteUser
import Auth8.Server.Answers

/-! # Which endpoints answer

The calls on the tables answer where their lookups find something to work on and their commits succeed;
with `Answers`, the condition under which each of the five endpoints ends with a response. -/
namespace Auth8.Server
open EventRuns KeyedTable Persistent Jaxrs
set_option autoImplicit false

section Devices
variable {order : DeviceOrder} {faults : Faults} {t : DeviceTable}

/-- The query fails, or it finds a row, or a new row can be committed. -/
def CanRegister (faults : Faults) (t : DeviceTable) (email regId name : Option String) : Prop :=
  faults.query = true ∨ (∃ row ∈ t.rows, likeExp email row.2.email = true) ∨
    faults.commit = false ∧ (validate email regId name).isSome = true

theorem regNewDevice_answers {email regId name : Option String} :
    IsAnswer (regNewDevice order faults t email regId name).1 ↔
      CanRegister faults t email regId name := by
  rcases regNewDevice_cases order faults t email regId name with
    ⟨t', ⟨_, hcommit, hc⟩, hcall⟩ | ⟨_, hcaught, hcall⟩ | ⟨hnot, hquery, hinsert, hcall⟩
  · rw [hcall]
    refine iff_of_true (isAnswer_success _ _) (.inr ?_)
    cases hplan : planReg order t email with
    | update row => exact .inl ⟨row, planReg_update hplan⟩
    | insert =>
      rw [hplan] at hc
      obtain ⟨new, hnew, _⟩ := Option.map_eq_some_iff.mp hc
      exact .inr ⟨hcommit, by rw [hnew]; rfl⟩
  · rw [hcall]
    refine iff_of_true (isAnswer_success _ _) ?_
    rcases hcaught with hquery | ⟨row, hplan⟩
    · exact .inl hquery
    · exact .inr (.inl ⟨row, planReg_update hplan⟩)
  · rw [hcall]
    refine iff_of_false not_isAnswer_none ?_
    rintro (hfault | ⟨row, hrow, hlike⟩ | ⟨hcommit, hvalid⟩)
    · rw [hquery] at hfault
      cases hfault
    · rw [planReg_insert_iff.mp hinsert row hrow] at hlike
      cases hlike
    · obtain ⟨new, hnew⟩ := Option.isSome_iff_exists.mp hvalid
      refine hnot (t.insert new) ⟨hquery, hcommit, ?_⟩
      rw [hinsert, commitReg, hnew]
      rfl

/-- The query finds a row, and its deletion can be committed. -/
def CanDelete (faults : Faults) (t : DeviceTable) (regid : Option String) : Prop :=
  faults.query = false ∧ (∃ row ∈ t.rows, likeExp regid row.2.regid = true) ∧ faults.commit = false

theorem deleteDevice_answers {regid : Option String} :
    IsAnswer (deleteDevice order faults t regid).1 ↔ CanDelete faults t regid := by
  rcases deleteDevice_cases order faults t regid with
    ⟨row, hquery, hrow, hcommit, hcall⟩ | ⟨hfault, hcall⟩
  · rw [hcall]
    exact iff_of_true (isAnswer_success _ _) ⟨hquery, ⟨row, of_first hrow⟩, hcommit⟩
  · rw [hcall]
    refine iff_of_false not_isAnswer_none ?_
    rintro ⟨hquery, ⟨row, hrow, hlike⟩, hcommit⟩
    rcases hfault with hfault | hnone | hfault
    · rw [hquery] at hfault
      cases hfault
    · rw [first_eq_none.mp hnone row hrow] at hlike
      cases hlike
    · rw [hcommit] at hfault
      cases hfault

end Devices

section Users
variable {order : UserOrder} {faults : ℕ → Faults} {s : Session} {publicKey : String}
variable {keys : List String}

/-- Whichever rows the earlier keys have cost, a later key finds a row. -/
def Lasts : Session → List String → Prop
  | _, [] => True
  | s, publicKey :: keys =>
    (∃ row ∈ s.table.rows, row.2.publicKey.any (likeExp (some publicKey)) = true) ∧
      ∀ row ∈ s.table.rows, row.2.publicKey.any (likeExp (some publicKey)) = true →
        Lasts (s.deleteObjects row.1).commitChanges keys

theorem deleteUser_answers_cons :
    IsAnswer (deleteUser order faults s (publicKey :: keys)).1 ↔
      faults 0 = .none ∧ ∃ row, queryPublicKey order s.table publicKey = some row ∧
        IsAnswer (deleteUser order (fun k => faults (k + 1))
          (s.deleteObjects row.1).commitChanges keys).1 := by
  rw [deleteUser]
  cases hquery : (faults 0).query with
  | true =>
    refine iff_of_false not_isAnswer_none ?_
    rintro ⟨hnone, _⟩
    rw [hnone] at hquery
    cases hquery
  | false =>
    cases hrow : queryPublicKey order s.table publicKey with
    | none => exact iff_of_false not_isAnswer_none (by simp)
    | some row =>
      cases hcommit : (faults 0).commit with
      | true =>
        refine iff_of_false (by simpa [hcommit] using not_isAnswer_none) ?_
        rintro ⟨hnone, _⟩
        rw [hnone] at hcommit
        cases hcommit
      | false =>
        have hfaults : faults 0 = .none := Faults.eq_none hquery hcommit
        simp [hfaults, Faults.none]

/-- The rows after a round: those there were with what was pending, less the one of the round. -/
theorem mem_round {row r : ℕ × User} :
    r ∈ (s.deleteObjects row.1).commitChanges.table.rows ↔
      r ∈ (s.context.commit s.table).rows ∧ r.1 ≠ row.1 := by
  rw [commitChanges_table]
  exact mem_delete

/-- An order that differs only in a selection with a row the table does not have makes no difference,
where nothing is pending that could bring the row back. -/
theorem deleteUser_override {selection : List (ℕ × User)} {row : ℕ × User} (hidle : s.Idle)
    (hrow : row ∉ s.table.rows) (hsel : row ∈ selection) :
    deleteUser (order.override selection row) faults s keys = deleteUser order faults s keys := by
  induction keys generalizing faults s with
  | nil => rfl
  | cons publicKey keys ih =>
    have hquery : queryPublicKey (order.override selection row) s.table publicKey =
        queryPublicKey order s.table publicKey := first_override_of_notMem hrow hsel
    rw [deleteUser, deleteUser, hquery]
    cases queryPublicKey order s.table publicKey with
    | none => rfl
    | some found =>
      have hgone : row ∉ (s.deleteObjects found.1).commitChanges.table.rows := by
        rw [mem_round, hidle.commit]
        exact fun hmem => hrow hmem.1
      dsimp only
      rw [ih (commitChanges_idle _) hgone]

theorem answers_of_lasts (h : Lasts s keys) (hfaults : ∀ k < keys.length, faults k = .none) :
    IsAnswer (deleteUser order faults s keys).1 := by
  induction keys generalizing faults s with
  | nil => exact isAnswer_success _ _
  | cons publicKey keys ih =>
    rw [List.length_cons, Nat.forall_lt_succ_left] at hfaults
    obtain ⟨⟨row, hrow, hlike⟩, hrest⟩ := h
    refine deleteUser_answers_cons.mpr ⟨hfaults.1, ?_⟩
    cases hquery : queryPublicKey order s.table publicKey with
    | none =>
      rw [first_eq_none.mp hquery row hrow] at hlike
      cases hlike
    | some found =>
      obtain ⟨hfound, hlikes⟩ := of_first hquery
      exact ⟨found, rfl, ih (hrest found hfound hlikes) hfaults.2⟩

theorem lasts_of_answers (h : ∀ order, IsAnswer (deleteUser order faults s keys).1) :
    Lasts s keys ∧ ∀ k < keys.length, faults k = .none := by
  induction keys generalizing faults s with
  | nil => exact ⟨trivial, nofun⟩
  | cons publicKey keys ih =>
    obtain ⟨hfault, found, hquery, _⟩ := deleteUser_answers_cons.mp (h (.asStored _))
    -- the row deleted first may be any of those selected, and the later rounds may see any order
    have hrest : ∀ row ∈ s.table.rows, row.2.publicKey.any (likeExp (some publicKey)) = true →
        ∀ order, IsAnswer (deleteUser order (fun k => faults (k + 1))
          (s.deleteObjects row.1).commitChanges keys).1 := by
      intro row hrow hlike order
      have hsel : row ∈ s.table.rows.filter fun q => q.2.publicKey.any (likeExp (some publicKey)) :=
        List.mem_filter.mpr ⟨hrow, hlike⟩
      obtain ⟨_, taken, htaken, hans⟩ := deleteUser_answers_cons.mp (h (order.override _ row))
      have hfirst : queryPublicKey (order.override _ row) s.table publicKey = some row :=
        first_override hrow hlike
      obtain rfl : taken = row := Option.some.inj (htaken.symm.trans hfirst)
      rwa [deleteUser_override (commitChanges_idle _) (fun hmem => (mem_round.mp hmem).2 rfl) hsel]
        at hans
    obtain ⟨hfound, hlikes⟩ := of_first hquery
    refine ⟨⟨⟨found, hfound, hlikes⟩, fun row hrow hlike => (ih (hrest row hrow hlike)).1⟩, ?_⟩
    rw [List.length_cons, Nat.forall_lt_succ_left]
    exact ⟨hfault, (ih (hrest found hfound hlikes)).2⟩

end Users

/-! ## All endpoints -/

theorem endpoints_answer_iff (devices : DeviceTable) (users : Session) :
    (∀ (es : List Event) (s : State), run step .init es = some s →
      (Along step Answerable .init es ↔
        ∀ pre m, pre <+: es → run step .init pre = some m → Answered m)) ∧
    (∀ order faults email regId name,
      IsAnswer (regNewDevice order faults devices email regId name).1 ↔
        CanRegister faults devices email regId name) ∧
    (∀ order faults regid,
      IsAnswer (deleteDevice order faults devices regid).1 ↔ CanDelete faults devices regid) ∧
    ∀ faults keys, (∀ order, IsAnswer (deleteUser order faults users keys).1) ↔
      Lasts users keys ∧ ∀ k < keys.length, faults k = .none :=
  ⟨fun _ _ h => answered_iff h, fun _ _ _ _ _ => regNewDevice_answers,
    fun _ _ _ => deleteDevice_answers,
    fun _ _ => ⟨lasts_of_answers, fun h _ => answers_of_lasts h.1 h.2⟩⟩

/-- A `wake` for an id that no call has put. -/
def strayWake : List Event := .wake 0 true "stray" :: List.replicate 7 (.runWake 0)

theorem strayWake_threw :
    (run step .init strayWake).map (fun s => (s.wakes 0).map Wake.pc) = some (some .threw) := by
  decide +kernel

theorem strayWake_not_answered : ¬ ∀ (devices : DeviceTable) (users : Session),
    (∀ (es : List Event) (s : State), run step .init es = some s → Answered s) ∧
    (∀ order faults email regId name,
      IsAnswer (regNewDevice order faults devices email regId name).1) ∧
    (∀ order faults regid, IsAnswer (deleteDevice order faults devices regid).1) ∧
    ∀ order faults keys, IsAnswer (deleteUser order faults users keys).1 := by
  intro h
  have hruns := (h (empty 200) (.clean (empty 200))).1
  obtain ⟨s, hs, hpc⟩ := Option.map_eq_some_iff.mp strayWake_threw
  obtain ⟨th, hth, hthrew⟩ := Option.map_eq_some_iff.mp hpc
  refine not_isAnswer_none ((hruns strayWake s hs).wake 0 th none hth ?_)
  rw [hthrew]
  rfl

end Auth8.Server
