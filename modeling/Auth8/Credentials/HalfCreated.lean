import Auth8.Jaxrs.V1Settings

/-! # Half-created users

`createUser` fills its object in after adding it to the shared context, so the commit of another request in
between writes a row that lacks a key. Any number of requests, interleaved between their context
operations: no such row is ever committed exactly when no commit falls between the creation of an object
and its second key. -/
namespace Auth8.Credentials
open EventRuns KeyedTable Persistent Jaxrs
set_option autoImplicit false

/-- Every row has both keys. -/
def Complete (t : UserTable) : Prop := ∀ row ∈ t.rows, row.2.isComplete = true

theorem complete_empty (nextId : ℕ) : Complete (.empty nextId) := by
  intro row hrow
  cases hrow

/-- A commit that succeeds is taken while no request is between its `newObject` and its
`setPrivateKey`. -/
def WhollyCreated (s : SettingsState) : SettingsEvent → Prop
  | .commit _ true => ∀ i pc, s.calls i = some pc → pc.isHalf = false
  | _ => True

theorem isComplete_of_object {pc : SettingsPc} {user : User} (h : pc.object = some user) :
    user.isComplete = !pc.isHalf := by
  cases pc <;> cases h <;> rfl

theorem object_of_isHalf {pc : SettingsPc} (h : pc.isHalf = true) : ∃ user, pc.object = some user := by
  cases pc <;> first | exact ⟨_, rfl⟩ | cases h

/-! ## The objects in the context -/

/-- A new object in the context is the one its request is working on, or was left by one that failed. -/
def OfCall (s : SettingsState) (p : ℕ × User) : Prop :=
  ∃ pc, s.calls p.1 = some pc ∧ (pc.object = some p.2 ∨ pc.isEnded = true ∧ p.2.isComplete = true)

/-- The object of a request that lacks a key is in the context, and the rows found were there. -/
def Known (s : SettingsState) (i : ℕ) (pc : SettingsPc) : Prop :=
  (∀ user, pc.object = some user → pc.isHalf = true → (i, user) ∈ s.context.inserts) ∧
    ∀ row, pc.found = some row → row < s.table.nextId

structure Objects (s : SettingsState) : Prop where
  unmodified : s.context.updates = []
  inserts : ∀ p ∈ s.context.inserts, OfCall s p
  deletes : ∀ row ∈ s.context.deletes, row < s.table.nextId
  calls : ∀ i pc, s.calls i = some pc → Known s i pc

variable {order : UserOrder} {s s' : SettingsState} {e : SettingsEvent} {i : ℕ} {pc q : SettingsPc}

theorem objects_init (t : UserTable) : Objects (.init t) := ⟨rfl, nofun, nofun, nofun⟩

theorem OfCall.move {p : ℕ × User} (h : OfCall s p) (hp : p.1 ≠ i)
    (hs' : s'.calls = Function.update s.calls i (some q)) : OfCall s' p := by
  obtain ⟨pc, hpc, hobj⟩ := h
  exact ⟨pc, by rw [hs', Function.update_of_ne hp, hpc], hobj⟩

/-- A request without an object that has not ended has none in the context. -/
theorem Objects.not_mem (hI : Objects s) (hi : s.calls i = some pc) (hobj : pc.object = none)
    (hlive : pc.isEnded = false) {p : ℕ × User} (hp : p ∈ s.context.inserts) : p.1 ≠ i := by
  rintro rfl
  obtain ⟨pc', hpc, hobj'⟩ := hI.inserts p hp
  obtain rfl : pc = pc' := Option.some.inj (hi.symm.trans hpc)
  rcases hobj' with hobj' | ⟨hend, _⟩
  · rw [hobj] at hobj'
    cases hobj'
  · rw [hlive] at hend
    cases hend

/-- The request is at its new position; the others know what they knew. -/
theorem Objects.forall_known (hI : Objects s) (hs' : s'.calls = Function.update s.calls i (some q))
    (hq : Known s' i q)
    (hmem : ∀ p : ℕ × User, p.1 ≠ i → p ∈ s.context.inserts → p ∈ s'.context.inserts)
    (hnext : s.table.nextId ≤ s'.table.nextId) : ∀ j pc, s'.calls j = some pc → Known s' j pc := by
  intro j pc hpc
  rw [hs'] at hpc
  by_cases hj : j = i
  · rw [hj, Function.update_self] at hpc
    cases hpc
    rwa [hj]
  · rw [Function.update_of_ne hj] at hpc
    obtain ⟨hhalf, hfound⟩ := hI.calls j pc hpc
    refine ⟨fun user hu hh => hmem _ hj (hhalf user hu hh), fun row hrow => ?_⟩
    exact Nat.lt_of_lt_of_le (hfound row hrow) hnext

theorem Objects.write (hI : Objects s) (hi : s.calls i = some pc) {user : User} {f : User → User}
    (hpc : pc.object = some user) (hhalf : pc.isHalf = true) (hq : q.object = some (f user))
    (hfound : q.found = none) :
    Objects { s with
      context := s.context.modify i f
      calls := Function.update s.calls i (some q) } := by
  have hmem := (hI.calls i pc hi).1 user hpc hhalf
  rw [UnitOfWork.modify_of_mem hmem]
  refine ⟨hI.unmodified, ?_, hI.deletes, hI.forall_known rfl ⟨?_, ?_⟩ ?_ (le_refl _)⟩
  · intro p hp
    obtain ⟨p, hp₀, rfl⟩ := List.mem_map.mp hp
    by_cases hpi : p.1 = i
    · subst hpi
      obtain ⟨pc', hpc', hobj⟩ := hI.inserts p hp₀
      obtain rfl : pc = pc' := Option.some.inj (hi.symm.trans hpc')
      obtain rfl : user = p.2 := by
        rcases hobj with hobj | ⟨hend, _⟩
        · exact Option.some.inj (hpc.symm.trans hobj)
        · rw [SettingsPc.object_of_isEnded hend] at hpc
          cases hpc
      refine ⟨q, ?_, .inl ?_⟩
      · rw [updateRow_fst]
        exact Function.update_self ..
      · rw [updateRow, if_pos rfl, hq]
    · have hsame : updateRow i f p = p := if_neg hpi
      rw [hsame]
      exact (hI.inserts p hp₀).move hpi rfl
  · intro user' huser' _
    obtain rfl : f user = user' := Option.some.inj (hq.symm.trans huser')
    exact List.mem_map.mpr ⟨_, hmem, if_pos rfl⟩
  · rw [hfound]
    simp
  · exact fun p hpi hp => List.mem_map.mpr ⟨p, hp, if_neg hpi⟩

theorem Objects.operate (hI : Objects s) (hi : s.calls i = some pc) {w : UnitOfWork User}
    (hop : Operation s.table s.context i pc q w) :
    Objects { s with context := w, calls := Function.update s.calls i (some q) } := by
  cases hop with
  | create u v =>
    have hother : ∀ p ∈ s.context.inserts, p.1 ≠ i := fun p hp => hI.not_mem hi rfl rfl hp
    refine ⟨hI.unmodified, ?_, hI.deletes, hI.forall_known rfl ⟨?_, nofun⟩ ?_ (le_refl _)⟩
    · intro p hp
      rcases List.mem_append.mp hp with hp | hp
      · exact (hI.inserts p hp).move (hother p hp) rfl
      · obtain rfl := List.mem_singleton.mp hp
        exact ⟨_, Function.update_self .., .inl rfl⟩
    · rintro user ⟨⟩ _
      exact List.mem_append_right _ List.mem_cons_self
    · exact fun p _ hp => List.mem_append_left _ hp
  | write _ _ user f hpc hq hfound hhalf => exact hI.write hi hpc hhalf hq hfound
  | read _ _ hlive hpc hq hdel hdel' hfound =>
    have hother : ∀ p ∈ s.context.inserts, p.1 ≠ i := fun p hp => hI.not_mem hi hpc hlive hp
    refine ⟨hI.unmodified, fun p hp => (hI.inserts p hp).move (hother p hp) rfl, hI.deletes,
      hI.forall_known rfl ⟨?_, ?_⟩ (fun _ _ hp => hp) (le_refl _)⟩
    · rw [hq]
      exact nofun
    · intro row hrow
      obtain ⟨user, huser⟩ := hfound row hrow
      exact s.table.fresh _ huser
  | delete row rest =>
    have hother : ∀ p ∈ s.context.inserts, p.1 ≠ i := fun p hp => hI.not_mem hi rfl rfl hp
    have hrow := (hI.calls i _ hi).2 row rfl
    refine ⟨hI.unmodified, fun p hp => (hI.inserts p hp).move (hother p hp) rfl, ?_,
      hI.forall_known rfl ⟨nofun, ?_⟩ (fun _ _ hp => hp) (le_refl _)⟩
    · intro id hid
      rcases List.mem_insert_iff.mp hid with rfl | hid
      · exact hrow
      · exact hI.deletes id hid
    · rintro _ ⟨⟩
      exact hrow

theorem Objects.step (hI : Objects s) (hC : WhollyCreated s e) (h : settingsStep order s e = some s') :
    Objects s' := by
  cases step_of_settingsStep h with
  | arrive i request hi =>
    have hother : ∀ p ∈ s.context.inserts, p.1 ≠ i := by
      rintro p hp rfl
      obtain ⟨pc, hpc, _⟩ := hI.inserts p hp
      rw [hi] at hpc
      cases hpc
    refine ⟨hI.unmodified, fun p hp => (hI.inserts p hp).move (hother p hp) rfl, hI.deletes,
      hI.forall_known rfl ⟨?_, ?_⟩ (fun _ _ hp => hp) (le_refl _)⟩
    · rw [start_object]
      exact nofun
    · rw [start_found]
      exact nofun
  | operate i pc q w hi hop => exact hI.operate hi hop
  | commit i pc q hi hq =>
    refine ⟨rfl, nofun, nofun, ?_⟩
    intro j pc' hpc'
    change Function.update s.calls i (some q) j = some pc' at hpc'
    by_cases hj : j = i
    · rw [hj, Function.update_self] at hpc'
      cases hpc'
      rw [Known, afterCommit_object hq, afterCommit_found hq]
      exact ⟨nofun, nofun⟩
    · rw [Function.update_of_ne hj] at hpc'
      refine ⟨fun user _ hhalf => ?_, fun row hrow => ?_⟩
      · rw [hC j pc' hpc'] at hhalf
        cases hhalf
      · rw [UnitOfWork.commit_nextId hI.unmodified]
        exact Nat.lt_add_right _ ((hI.calls j pc' hpc').2 row hrow)
  | fail i pc q hi hq =>
    refine ⟨hI.unmodified, ?_, hI.deletes,
      hI.forall_known rfl ⟨nofun, nofun⟩ (fun _ _ hp => hp) (le_refl _)⟩
    intro p hp
    by_cases hpi : p.1 = i
    · subst hpi
      refine ⟨.threw, Function.update_self .., .inr ⟨rfl, ?_⟩⟩
      obtain ⟨pc', hpc', hobj | ⟨_, hcomplete⟩⟩ := hI.inserts p hp
      · obtain rfl : pc = pc' := Option.some.inj (hi.symm.trans hpc')
        rw [isComplete_of_object hobj, afterCommit_isHalf hq]
        rfl
      · exact hcomplete
    · exact (hI.inserts p hp).move hpi rfl

/-! ## What is committed -/

/-- A step keeps the rows complete exactly when it commits no object that lacks a key. -/
theorem complete_step_iff (hI : Objects s) (hP : Complete s.table)
    (h : settingsStep order s e = some s') : Complete s'.table ↔ WhollyCreated s e := by
  cases step_of_settingsStep h with
  | arrive i request hi => exact iff_of_true hP trivial
  | operate i pc q w hi hop => exact iff_of_true hP trivial
  | fail i pc q hi hq => exact iff_of_true hP trivial
  | commit i pc q hi hq =>
    constructor
    · intro hcomplete j pc' hpc'
      by_contra hhalf
      rw [Bool.not_eq_false] at hhalf
      obtain ⟨user, huser⟩ := object_of_isHalf hhalf
      have hmem := (hI.calls j pc' hpc').1 user huser hhalf
      obtain ⟨row, hrow, _, hsame⟩ := UnitOfWork.exists_mem_commit hI.unmodified hI.deletes hmem
      have := hcomplete row hrow
      rw [hsame, isComplete_of_object huser, hhalf] at this
      cases this
    · intro hwhole row hrow
      rcases UnitOfWork.of_mem_commit hI.unmodified hrow with hrow | ⟨p, hp, hsame⟩
      · exact hP row hrow
      · rw [← hsame]
        obtain ⟨pc', hpc', hobj | ⟨_, hcomplete⟩⟩ := hI.inserts p hp
        · rw [isComplete_of_object hobj, hwhole p.1 pc' hpc']
          rfl
        · exact hcomplete

/-- In a run of concurrent requests no row without both keys is ever committed exactly when no commit
succeeds between the creation of an object and its second key. -/
theorem complete_iff {t : UserTable} (ht : Complete t) {es : List SettingsEvent}
    (h : run (settingsStep order) (.init t) es = some s) :
    Along (settingsStep order) WhollyCreated (.init t) es ↔
      ∀ pre m, pre <+: es → run (settingsStep order) (.init t) pre = some m → Complete m.table :=
  along_iff_invariant (P := fun m => Complete m.table) (fun _ _ _ hI _ hC => hI.step hC)
    (fun _ _ _ => complete_step_iff) (objects_init t) ht h

def oneCreation : List SettingsEvent :=
  [.arrive 0 (.createUser ⟨0, 0⟩ ⟨0, 1⟩), .run 0, .run 0, .run 0, .commit 0 true]

theorem oneCreation_complete :
    Along (settingsStep (.asStored _)) WhollyCreated (.init (.empty 200)) oneCreation ↔
      ∀ pre m, pre <+: oneCreation →
        run (settingsStep (.asStored _)) (.init (.empty 200)) pre = some m → Complete m.table :=
  complete_iff (complete_empty 200)
    (Option.some_get (by decide +kernel :
      (run (settingsStep (.asStored _)) (.init (.empty 200)) oneCreation).isSome)).symm

/-- The second request commits when the first has set the public key only. -/
def twoCreations : List SettingsEvent :=
  [.arrive 0 (.createUser ⟨0, 0⟩ ⟨0, 1⟩), .arrive 1 (.createUser ⟨0, 2⟩ ⟨0, 3⟩),
    .run 0, .run 0, .run 1, .run 1, .run 1, .commit 1 true]

theorem twoCreations_incomplete :
    (run (settingsStep (.asStored _)) (.init (.empty 200)) twoCreations).map
        (fun s => s.table.rows.map fun row => (row.2.publicKey.isSome, row.2.privateKey.isSome)) =
      some [(true, false), (true, true)] := by
  decide +kernel

end Auth8.Credentials
