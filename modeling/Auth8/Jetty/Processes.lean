import Auth8.Jetty.Main

/-! # Processes on one store

Any number of processes run `init` on the shared store, one database operation at a time; all operations
succeed, though a `get(0)` still throws where nothing is found. The UUID of a process is drawn with the
commit it is written by. -/
namespace Auth8.Jetty
open EventRuns KeyedTable Persistent Server
set_option autoImplicit false

/-- The next database operation of a process. -/
inductive MainPc where
  | emptinessCheck (bundle : Bundle)
  | commitNew (bundle : Bundle)
  | queryVersion (bundle : Bundle)
  | queryBuild (bundle : Bundle) (version : ℕ × Setting)
  | commitBundle (bundle : Bundle) (version build : ℕ × Setting)
  | queryKey
  /-- `init` has returned -/
  | ready (shutdownKey : Option String)
  /-- an exception or `System.exit` has ended the process -/
  | threw
  deriving DecidableEq, Repr

/-- An operation other than the commit of a new store. -/
def MainPc.operate (order : SettingOrder) (s : Store) : MainPc → Option (MainPc × Store)
  | .emptinessCheck bundle =>
    some (if storeExists false s then .queryVersion bundle else .commitNew bundle, s)
  | .queryVersion bundle =>
    match queryName order s.settings settingsVersionKey with
    | some version => some (.queryBuild bundle version, s)
    | none => some (.threw, s)
  | .queryBuild bundle version =>
    match queryName order s.settings settingsBuildKey with
    | some build => some (.commitBundle bundle version build, s)
    | none => some (.threw, s)
  | .commitBundle bundle version build => some (.queryKey, s.updateBundle version build bundle)
  | .queryKey =>
    match queryName order s.settings settingsShutdownKey with
    | some sdKey => some (.ready sdKey.2.value, s)
    | none => some (.threw, s)
  | _ => none

structure MainState where
  store : Store
  processes : ℕ → Option MainPc
  /-- the UUIDs drawn so far -/
  uuids : List UUID

inductive MainEvent where
  | start (i : ℕ) (bundle : Bundle)
  /-- the commit of a new store -/
  | create (i : ℕ) (uuid : UUID)
  /-- the next operation of a process, where it is another one -/
  | run (i : ℕ)
  deriving DecidableEq, Repr

def MainState.init (s : Store) : MainState := ⟨s, fun _ => none, []⟩

def mainStep (order : SettingOrder) (s : MainState) : MainEvent → Option MainState
  | .start i bundle =>
    whenever (s.processes i = none)
      { s with processes := Function.update s.processes i (some (.emptinessCheck bundle)) }
  | .create i uuid =>
    match s.processes i with
    | some (.commitNew bundle) =>
      whenever (uuid ∉ s.uuids)
        { store := s.store.create bundle (newShutdownKey uuid)
          processes := Function.update s.processes i (some (.ready (some (newShutdownKey uuid))))
          uuids := uuid :: s.uuids }
    | _ => none
  | .run i =>
    (s.processes i).bind fun pc => (pc.operate order s.store).map fun (q, store) =>
      { s with store := store, processes := Function.update s.processes i (some q) }

/-! ## One process by itself -/

def finished : Option (Option String) → MainPc
  | some shutdownKey => .ready shutdownKey
  | none => .threw

section Alone

variable {order : SettingOrder} {s : MainState} {i : ℕ}

/-- Operations of process `i` alone take it to the position `q` and the store to `store`. -/
def Leads (order : SettingOrder) (i : ℕ) (s : MainState) (q : MainPc) (store : Store) : Prop :=
  ∃ events s', run (mainStep order) s events = some s' ∧ s'.store = store ∧
    s'.processes = Function.update s.processes i (some q)

theorem leads_self {pc : MainPc} (hi : s.processes i = some pc) : Leads order i s pc s.store := by
  refine ⟨[], s, rfl, rfl, ?_⟩
  rw [← hi, Function.update_eq_self]

theorem Leads.step {e : MainEvent} {pc q : MainPc} {store store' : Store} {u : List UUID}
    (he : mainStep order s e = some ⟨store, Function.update s.processes i (some pc), u⟩)
    (h : Leads order i ⟨store, Function.update s.processes i (some pc), u⟩ q store') :
    Leads order i s q store' := by
  obtain ⟨events, s', hrun, hstore, hprocesses⟩ := h
  refine ⟨e :: events, s', ?_, hstore, ?_⟩
  · rw [run_cons, he]
    exact hrun
  · rw [hprocesses, Function.update_idem]

/-- The next operation, and then the others. -/
theorem Leads.operate {pc pc' q : MainPc} {store store' : Store} (hi : s.processes i = some pc)
    (hop : pc.operate order s.store = some (pc', store))
    (h : Leads order i ⟨store, Function.update s.processes i (some pc'), s.uuids⟩ q store') :
    Leads order i s q store' := by
  refine Leads.step (e := .run i) ?_ h
  simp only [mainStep, hi, hop, Option.bind_some, Option.map_some]

theorem leads_operate {pc q : MainPc} {store : Store} (hi : s.processes i = some pc)
    (hop : pc.operate order s.store = some (q, store)) : Leads order i s q store :=
  .operate hi hop (leads_self (Function.update_self ..))

/-- By itself a process does what `init` does. -/
theorem run_init {bundle : Bundle} {uuid : UUID}
    (hi : s.processes i = some (.emptinessCheck bundle)) (hnew : uuid ∉ s.uuids) :
    ∃ events s', run (mainStep order) s events = some s' ∧
      s'.store = (init order .none bundle uuid s.store).2 ∧
      s'.processes =
        Function.update s.processes i (some (finished (init order .none bundle uuid s.store).1)) := by
  change Leads order i s (finished (init order .none bundle uuid s.store).1) _
  cases hexists : storeExists false s.store with
  | false =>
    have hinit : init order .none bundle uuid s.store =
        (some (some (newShutdownKey uuid)), s.store.create bundle (newShutdownKey uuid)) := by
      simp [init, InitFaults.none, hexists]
    have hcheck : (MainPc.emptinessCheck bundle).operate order s.store =
        some (.commitNew bundle, s.store) := by simp [MainPc.operate, hexists]
    rw [hinit]
    refine .operate hi hcheck ?_
    refine .step (e := .create i uuid) (u := uuid :: s.uuids) ?_ (leads_self (Function.update_self ..))
    simp only [mainStep, Function.update_self]
    exact whenever_eq_some.mpr ⟨hnew, rfl⟩
  | true =>
    have hcheck : (MainPc.emptinessCheck bundle).operate order s.store =
        some (.queryVersion bundle, s.store) := by simp [MainPc.operate, hexists]
    refine .operate hi hcheck ?_
    cases hversion : queryName order s.store.settings settingsVersionKey with
    | none =>
      have hinit : init order .none bundle uuid s.store = (none, s.store) := by
        simp [init, InitFaults.none, firstNamed, hexists, hversion]
      rw [hinit]
      exact leads_operate (Function.update_self ..) (by simp only [MainPc.operate, hversion, finished])
    | some version =>
      have hquery : (MainPc.queryVersion bundle).operate order s.store =
          some (.queryBuild bundle version, s.store) := by simp only [MainPc.operate, hversion]
      refine .operate (Function.update_self ..) hquery ?_
      cases hbuild : queryName order s.store.settings settingsBuildKey with
      | none =>
        have hinit : init order .none bundle uuid s.store = (none, s.store) := by
          simp [init, InitFaults.none, firstNamed, hexists, hversion, hbuild]
        rw [hinit]
        exact leads_operate (Function.update_self ..) (by simp only [MainPc.operate, hbuild, finished])
      | some build =>
        have hquery : (MainPc.queryBuild bundle version).operate order s.store =
            some (.commitBundle bundle version build, s.store) := by
          simp only [MainPc.operate, hbuild]
        refine .operate (Function.update_self ..) hquery (.operate (Function.update_self ..) rfl ?_)
        obtain ⟨store, hstore⟩ : ∃ store, store = s.store.updateBundle version build bundle := ⟨_, rfl⟩
        have hinit : init order .none bundle uuid s.store =
            ((queryName order store.settings settingsShutdownKey).map fun sdKey => sdKey.2.value,
              store) := by
          simp [init, InitFaults.none, firstNamed, hexists, hversion, hbuild, hstore]
        rw [hinit, ← hstore]
        cases hkey : queryName order store.settings settingsShutdownKey with
        | none =>
          exact leads_operate (Function.update_self ..) (by simp only [MainPc.operate, hkey]; rfl)
        | some sdKey =>
          exact leads_operate (Function.update_self ..) (by simp only [MainPc.operate, hkey]; rfl)

end Alone

end Auth8.Jetty
