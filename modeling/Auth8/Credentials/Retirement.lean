import Auth8.Jaxrs.DeleteUser

/-! # How far a deletion gets

`deleteUser` commits key by key, so a call that ends in an exception has retired the keys before the one
at which it failed. -/
namespace Auth8.Credentials
open KeyedTable Persistent Jaxrs
set_option autoImplicit false

/-- Every key retired costs one row, a row its pattern selects, and no other row changes; what was
pending in the context before the call is written with the first of them. A call that stops early does so
at a round that throws. -/
theorem deleteUser_retires_prefix (order : UserOrder) (faults : ℕ → Faults) (s : Session)
    (keys : List String) : ∃ done rest ids, keys = done ++ rest ∧ ids.Nodup ∧
      List.Forall₂ (fun id key => IsLike s.table id key ∨ IsLike (s.context.commit s.table) id key)
        ids done ∧
      (deleteUser order faults s keys).2.table =
        (if done = [] then s.table else (s.context.commit s.table).deleteAll ids) ∧
      ((deleteUser order faults s keys).1 = some removed ∧ rest = [] ∨
        (deleteUser order faults s keys).1 = none ∧ ∃ publicKey later, rest = publicKey :: later ∧
          Throws order (faults done.length) (deleteUser order faults s keys).2.table publicKey) := by
  obtain ⟨done, rest, s', hkeys, hdone, htable, hend⟩ := deleteUser_prefix order faults s keys
  rw [← htable] at hend
  cases done with
  | nil =>
    cases hdone
    exact ⟨[], rest, [], hkeys, List.nodup_nil, .nil, htable, hend⟩
  | cons publicKey done =>
    rw [List.foldlM_cons] at hdone
    obtain ⟨m, hm, hdone⟩ := Option.bind_eq_some_iff.mp hdone
    obtain ⟨row, hlike, rfl⟩ := retire_row hm
    obtain ⟨ids, hids, hnodup, hrows⟩ := foldlM_retire_idle (commitChanges_idle _) hdone
    rw [commitChanges_table] at hids hrows
    obtain ⟨hne, hrows⟩ := forall₂_isLike_delete hrows
    refine ⟨publicKey :: done, rest, row :: ids, hkeys,
      List.nodup_cons.mpr ⟨fun hmem => hne _ hmem rfl, hnodup⟩, ?_, ?_, hend⟩
    · exact .cons (.inl hlike) (hrows.imp fun _ _ h => .inr h)
    · rw [htable, hids, if_neg (List.cons_ne_nil _ _)]
      rfl

/-! ## A commit fails at the second key -/

def twoUsers : UserTable :=
  ((empty 200).insert ⟨some "fd2e96f1", some "c3c3"⟩).insert ⟨some "0b5a77d2", some "1a1a"⟩

/-- The first key is gone, though the call has not answered. -/
theorem secondCommit_fails : ¬ ∀ (order : UserOrder) (faults : ℕ → Faults) (t : UserTable)
    (keys : List String), (deleteUser order faults (.clean t) keys).1.isSome = true ∨
      (deleteUser order faults (.clean t) keys).2.table.rows = t.rows := by
  intro h
  have hcall := h (.asStored _) (fun k => ⟨false, decide (k = 1)⟩) twoUsers ["fd2e96f1", "0b5a77d2"]
  revert hcall
  decide +kernel

end Auth8.Credentials
