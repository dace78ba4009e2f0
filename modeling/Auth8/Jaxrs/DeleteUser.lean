import Auth8.Jaxrs.V1RegDevice
import Auth8.Jaxrs.V1Settings
import Mathlib.Data.List.Forall2

/-! # `deleteUser`, one call from its start to its end

The loop over the keys with no other request under way. Every round queries, deletes and commits for
itself, and the first exception of a round ends the call. -/
namespace Auth8.Jaxrs
open EventRuns KeyedTable Persistent
set_option autoImplicit false

/-- The committed table and the static context of the class. -/
structure Session where
  table : UserTable
  context : UnitOfWork User

/-- A session with nothing pending. -/
def Session.clean (t : UserTable) : Session := ⟨t, .empty⟩

def Session.deleteObjects (s : Session) (row : ℕ) : Session :=
  { s with context := s.context.deleteObject row }

def Session.commitChanges (s : Session) : Session :=
  ⟨s.context.commit s.table, s.context.committed s.table⟩

def removed : Response :=
  Success.response (some "The specified keys have been removed from service.") none

/-- `faults k` are those of the `k`-th round. -/
def deleteUser (order : UserOrder) (faults : ℕ → Faults) (s : Session) :
    List String → Option Response × Session
  | [] => (some removed, s)
  | publicKey :: rest =>
    if (faults 0).query then (none, s) else
      match queryPublicKey order s.table publicKey with
      -- `get(0)` throws
      | none => (none, s)
      | some row =>
        if (faults 0).commit then (none, s.deleteObjects row.1)
        else deleteUser order (fun k => faults (k + 1)) (s.deleteObjects row.1).commitChanges rest

/-- A round in which nothing throws. -/
def retire (order : UserOrder) (s : Session) (publicKey : String) : Option Session :=
  (queryPublicKey order s.table publicKey).map fun row => (s.deleteObjects row.1).commitChanges

section
variable {order : UserOrder} {faults : ℕ → Faults} {s s' : Session} {t : UserTable}
variable {publicKey : String} {keys rest : List String}

@[simp] theorem deleteUser_nil : deleteUser order faults s [] = (some removed, s) := rfl

/-- What makes a round throw: its query, `get(0)`, or its commit. -/
def Throws (order : UserOrder) (faults : Faults) (t : UserTable) (publicKey : String) : Prop :=
  faults.query = true ∨ queryPublicKey order t publicKey = none ∨ faults.commit = true

/-- A round throws, and the table is left as it is, or retires its key. -/
theorem deleteUser_cons (order : UserOrder) (faults : ℕ → Faults) (s : Session) (publicKey : String)
    (rest : List String) :
    (Throws order (faults 0) s.table publicKey ∧
      (deleteUser order faults s (publicKey :: rest)).1 = none ∧
      (deleteUser order faults s (publicKey :: rest)).2.table = s.table) ∨
    ∃ s', retire order s publicKey = some s' ∧
      deleteUser order faults s (publicKey :: rest) =
        deleteUser order (fun k => faults (k + 1)) s' rest := by
  rw [deleteUser, retire]
  split
  · rename_i hquery
    exact .inl ⟨.inl hquery, rfl, rfl⟩
  · cases hrow : queryPublicKey order s.table publicKey with
    | none => exact .inl ⟨.inr (.inl hrow), rfl, rfl⟩
    | some row =>
      dsimp only
      split
      · rename_i hcommit
        exact .inl ⟨.inr (.inr hcommit), rfl, rfl⟩
      · exact .inr ⟨_, rfl, rfl⟩

/-! ## The call as a run of the class -/

def finished : Option Response → SettingsPc
  | some response => .returned response
  | none => .threw

/-- By itself a call takes the steps of the class, where no query throws. -/
theorem run_deleteUser (hq : ∀ k, (faults k).query = false) {i : ℕ} {calls : ℕ → Option SettingsPc}
    (hi : calls i = some (deleteLoop keys)) :
    ∃ events, run (settingsStep order) ⟨s.table, s.context, calls⟩ events =
      some ⟨(deleteUser order faults s keys).2.table, (deleteUser order faults s keys).2.context,
        Function.update calls i (some (finished (deleteUser order faults s keys).1))⟩ := by
  induction keys generalizing s faults calls with
  | nil =>
    refine ⟨[], ?_⟩
    have hcalls : Function.update calls i (some (finished (some removed))) = calls := by
      rw [← Function.update_eq_self i calls, hi, Function.update_idem]
      rfl
    rw [deleteUser_nil, hcalls]
    rfl
  | cons publicKey rest ih =>
    cases hfound : queryPublicKey order s.table publicKey with
    | none =>
      refine ⟨[.run i], ?_⟩
      simp [settingsStep, hi, deleteLoop, SettingsPc.operate, hfound, deleteUser, hq, finished]
    | some row =>
      cases hcommit : (faults 0).commit with
      | true =>
        refine ⟨[.run i, .run i, .commit i false], ?_⟩
        simp [run_cons, settingsStep, hi, deleteLoop, SettingsPc.operate, SettingsPc.afterCommit, hfound,
          deleteUser, hq, hcommit, finished, Session.deleteObjects]
      | false =>
        have hnext : Function.update calls i (some (deleteLoop rest)) i = some (deleteLoop rest) :=
          Function.update_self ..
        obtain ⟨events, hrun⟩ := ih (s := (s.deleteObjects row.1).commitChanges)
          (fun k => hq (k + 1)) hnext
        refine ⟨.run i :: .run i :: .commit i true :: events, ?_⟩
        rw [Function.update_idem] at hrun
        simp [run_cons, settingsStep, hi, deleteLoop, SettingsPc.operate, SettingsPc.afterCommit, hfound,
          deleteUser, hq, hcommit]
        exact hrun

/-! ## The keys retired -/

/-- The call retires the keys one after the other, up to the first one whose round throws. -/
theorem deleteUser_prefix (order : UserOrder) (faults : ℕ → Faults) (s : Session)
    (keys : List String) : ∃ done rest s', keys = done ++ rest ∧
      done.foldlM (retire order) s = some s' ∧ (deleteUser order faults s keys).2.table = s'.table ∧
      ((deleteUser order faults s keys).1 = some removed ∧ rest = [] ∨
        (deleteUser order faults s keys).1 = none ∧ ∃ publicKey later, rest = publicKey :: later ∧
          Throws order (faults done.length) s'.table publicKey) := by
  induction keys generalizing s faults with
  | nil => exact ⟨[], [], s, rfl, rfl, rfl, .inl ⟨rfl, rfl⟩⟩
  | cons publicKey keys ih =>
    rcases deleteUser_cons order faults s publicKey keys with ⟨hthrows, hnone, htable⟩ | ⟨m, hm, hrest⟩
    · exact ⟨[], publicKey :: keys, s, rfl, rfl, htable, .inr ⟨hnone, publicKey, keys, rfl, hthrows⟩⟩
    · obtain ⟨done, rest, s', rfl, hdone, htable, hend⟩ := ih (fun k => faults (k + 1)) m
      rw [← hrest] at htable hend
      refine ⟨publicKey :: done, rest, s', rfl, ?_, htable, hend⟩
      rw [List.foldlM_cons, hm]
      exact hdone

/-- The row is one a query for the key may return. -/
def IsLike (t : UserTable) (row : ℕ) (publicKey : String) : Prop :=
  ∃ user, (row, user) ∈ t.rows ∧ user.publicKey.any (likeExp (some publicKey)) = true

theorem retire_row (h : retire order s publicKey = some s') :
    ∃ row, IsLike s.table row publicKey ∧ s' = (s.deleteObjects row).commitChanges := by
  obtain ⟨row, hrow, rfl⟩ := Option.map_eq_some_iff.mp h
  obtain ⟨hmem, hlike⟩ := of_first hrow
  exact ⟨row.1, ⟨row.2, hmem, hlike⟩, rfl⟩

/-- What is pending is written with the deletion. -/
theorem commitChanges_table (s : Session) (row : ℕ) :
    (s.deleteObjects row).commitChanges.table = (s.context.commit s.table).delete row :=
  UnitOfWork.deleteObject_commit s.context s.table row

/-- Rows found after a deletion are other rows, and were there before it. -/
theorem forall₂_isLike_delete {ids : List ℕ} {row : ℕ}
    (h : List.Forall₂ (IsLike (t.delete row)) ids keys) :
    (∀ id ∈ ids, id ≠ row) ∧ List.Forall₂ (IsLike t) ids keys := by
  refine (List.forall₂_and_left ids keys).mp (h.imp fun id key hid => ?_)
  obtain ⟨user, hmem, huser⟩ := hid
  exact ⟨(mem_delete.mp hmem).2, user, (mem_delete.mp hmem).1, huser⟩

/-- Nothing is pending. -/
structure Session.Idle (s : Session) : Prop where
  inserts : s.context.inserts = []
  updates : s.context.updates = []
  deletes : s.context.deletes = []

theorem clean_deleteObjects (t : UserTable) (row : ℕ) :
    ((Session.clean t).deleteObjects row).commitChanges = .clean (t.delete row) := rfl

theorem commitChanges_idle (s : Session) : s.commitChanges.Idle := ⟨rfl, rfl, rfl⟩

theorem Session.Idle.commit (h : s.Idle) : s.context.commit s.table = s.table := by
  rw [UnitOfWork.commit, h.inserts, h.updates, h.deletes]
  rfl

/-- With nothing pending, the keys delete one row each and change nothing else. -/
theorem foldlM_retire_idle (hidle : s.Idle) (h : keys.foldlM (retire order) s = some s') :
    ∃ ids : List ℕ, s'.table = s.table.deleteAll ids ∧ ids.Nodup ∧
      List.Forall₂ (IsLike s.table) ids keys := by
  induction keys generalizing s with
  | nil =>
    cases h
    exact ⟨[], rfl, List.nodup_nil, .nil⟩
  | cons publicKey keys ih =>
    rw [List.foldlM_cons] at h
    obtain ⟨m, hm, hkeys⟩ := Option.bind_eq_some_iff.mp h
    obtain ⟨row, hlike, rfl⟩ := retire_row hm
    obtain ⟨ids, htable, hnodup, hids⟩ := ih (commitChanges_idle _) hkeys
    rw [commitChanges_table, hidle.commit] at htable hids
    obtain ⟨hne, hlater⟩ := forall₂_isLike_delete hids
    exact ⟨row :: ids, htable, List.nodup_cons.mpr ⟨fun hmem => hne _ hmem rfl, hnodup⟩,
      .cons hlike hlater⟩

end

end Auth8.Jaxrs
