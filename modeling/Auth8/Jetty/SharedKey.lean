import Auth8.Jetty.Processes
import Auth8.Jetty.Restart

/-! # The shutdown key that processes share

Where every creation meets an empty store, all processes that have finished `init` hold the key of one
row. A process that has found the store empty may commit after another one has done so; it then holds a
key that no other process has. -/
namespace Auth8.Jetty
open EventRuns KeyedTable Persistent Server
set_option autoImplicit false

/-! ## The class `StopHandler` -/

inductive StopAction where
  | stop
  | logInvalid
  /-- not a request to stop -/
  | pass
  deriving DecidableEq, Repr

/-- `handle` on the parameter of the request; the field and the parameter may be null. -/
def StopHandler.handle (shutdownKey sharedSecretKey : Option String) : StopAction :=
  match sharedSecretKey with
  | some key => if shutdownKey = some key then .stop else .logInvalid
  | none => .pass

theorem handle_eq_stop {shutdownKey : Option String} {key : String} :
    StopHandler.handle shutdownKey (some key) = .stop ↔ shutdownKey = some key := by
  unfold StopHandler.handle
  split <;> simp_all

/-- All processes that have finished `init` hold one key, and each of them stops the server that any of
them runs. -/
def Agree (s : MainState) : Prop :=
  ∀ i j k k', s.processes i = some (.ready k) → s.processes j = some (.ready k') →
    k = k' ∧ ∀ key ∈ k, StopHandler.handle k' (some key) = .stop

/-- The initial rows are committed to an empty table only. -/
def CreatesFirst (s : MainState) : MainEvent → Prop
  | .create _ _ => s.store.settings.rows = []
  | _ => True

instance (s : MainState) (e : MainEvent) : Decidable (CreatesFirst s e) :=
  match e with
  | .create _ _ => inferInstanceAs (Decidable (s.store.settings.rows = []))
  | .start _ _ | .run _ => .isTrue trivial

variable {order : SettingOrder} {s s' s₀ : MainState} {e : MainEvent} {key : Option String}

theorem agree_of_eq (key : Option String)
    (h : ∀ i k, s.processes i = some (.ready k) → k = key) : Agree s := by
  intro i j k k' hi hj
  obtain rfl := h i k hi
  obtain rfl := h j k' hj
  exact ⟨rfl, fun key hkey => handle_eq_stop.mpr hkey⟩

/-! ## The steps -/

theorem exists_of_forall₂ {α : Type*} {R : α → α → Prop} {as bs : List α} {a : α}
    (h : List.Forall₂ R as bs) (ha : a ∈ as) : ∃ b ∈ bs, R a b := by
  induction h with
  | nil => cases ha
  | cons hR _ ih =>
    rcases List.mem_cons.mp ha with rfl | ha
    · exact ⟨_, List.mem_cons_self, hR⟩
    · obtain ⟨b, hb, hab⟩ := ih ha
      exact ⟨b, List.mem_cons_of_mem _ hb, hab⟩

theorem mainStep_cases (h : mainStep order s e = some s') :
    (∃ i bundle, e = .start i bundle ∧ s.processes i = none ∧
      s' = { s with processes := Function.update s.processes i (some (.emptinessCheck bundle)) }) ∨
    (∃ i uuid bundle, e = .create i uuid ∧ s.processes i = some (.commitNew bundle) ∧ uuid ∉ s.uuids ∧
      s' = { store := s.store.create bundle (newShutdownKey uuid)
             processes := Function.update s.processes i (some (.ready (some (newShutdownKey uuid))))
             uuids := uuid :: s.uuids }) ∨
    (∃ i pc q store, e = .run i ∧ s.processes i = some pc ∧ pc.operate order s.store = some (q, store) ∧
      s' = { s with store := store, processes := Function.update s.processes i (some q) }) := by
  cases e with
  | start i bundle =>
    obtain ⟨hi, rfl⟩ := whenever_eq_some.mp h
    exact .inl ⟨i, bundle, rfl, hi, rfl⟩
  | create i uuid =>
    simp only [mainStep] at h
    split at h
    · rename_i bundle hi
      obtain ⟨hnew, rfl⟩ := whenever_eq_some.mp h
      exact .inr (.inl ⟨i, uuid, bundle, rfl, hi, hnew, rfl⟩)
    · cases h
  | run i =>
    obtain ⟨pc, hi, hpc⟩ := Option.bind_eq_some_iff.mp h
    obtain ⟨⟨q, store⟩, hq, rfl⟩ := Option.map_eq_some_iff.mp hpc
    exact .inr (.inr ⟨i, pc, q, store, rfl, hi, hq, rfl⟩)

theorem newShutdownKey_injective : Function.Injective newShutdownKey := uniqueRequestId_injective

/-! ## Before the first commit -/

/-- The process has not gone beyond the check of an empty table. -/
def MainPc.IsFirst : MainPc → Prop
  | .emptinessCheck _ | .commitNew _ => True
  | _ => False

/-- The table is empty, and no process has found it otherwise. -/
structure Fresh (s : MainState) : Prop where
  empty : s.store.settings.rows = []
  parties : ∀ i pc, s.processes i = some pc → pc.IsFirst

theorem Fresh.agree (h : Fresh s) : Agree s := by
  intro i j k k' hi _
  cases h.parties i _ hi

theorem operate_first {pc q : MainPc} {store store' : Store} (hempty : store.settings.rows = [])
    (hfirst : pc.IsFirst) (h : pc.operate order store = some (q, store')) :
    q.IsFirst ∧ store' = store := by
  cases pc with
  | emptinessCheck bundle =>
    simp only [MainPc.operate, storeExists, hempty] at h
    cases h
    exact ⟨trivial, rfl⟩
  | commitNew bundle => cases h
  | _ => cases hfirst

/-! ## After it -/

/-- A row of this name has this primary key. -/
def HasRow (t : SettingTable) (name : String) (id : ℕ) : Prop :=
  ∃ row ∈ t.rows, row.1 = id ∧ row.2.name = some name

/-- The row of the version, and that of the build, are what the process has found. -/
def MainPc.HasFound (t : SettingTable) : MainPc → Prop
  | .queryBuild _ version => HasRow t settingsVersionKey version.1
  | .commitBundle _ version build =>
    HasRow t settingsVersionKey version.1 ∧ HasRow t settingsBuildKey build.1
  | _ => True

/-- The process holds the key, if it holds any. -/
def MainPc.Holds (key : Option String) : MainPc → Prop
  | .ready k => k = key
  | _ => True

/-- The table has one value for the shutdown key, and the processes that are ready hold it. Where some
process may still commit the initial rows, one of those that are ready has drawn the key itself. -/
structure Keyed (key : Option String) (s : MainState) : Prop where
  held : ∃ row ∈ s.store.settings.rows, row.2.name = some settingsShutdownKey
  only : ∀ row ∈ s.store.settings.rows, row.2.name = some settingsShutdownKey → row.2.value = key
  found : ∀ i pc, s.processes i = some pc → pc.HasFound s.store.settings
  parties : ∀ i pc, s.processes i = some pc → pc.Holds key
  creator : ∀ i bundle, s.processes i = some (.commitNew bundle) →
    ∃ j, ∃ uuid ∈ s.uuids, s.processes j = some (.ready (some (newShutdownKey uuid)))

theorem Keyed.agree (h : Keyed key s) : Agree s :=
  agree_of_eq key fun i _ hi => h.parties i _ hi

theorem Frame.exists_row {t t' : Store} {row : ℕ × Setting} (h : Frame t t')
    (hrow : row ∈ t.settings.rows) : ∃ row' ∈ t'.settings.rows, KeepsSetting row row' :=
  exists_of_forall₂ h.settings hrow

theorem Frame.exists_earlier {t t' : Store} {row' : ℕ × Setting} (h : Frame t t')
    (hrow' : row' ∈ t'.settings.rows) : ∃ row ∈ t.settings.rows, KeepsSetting row row' :=
  exists_of_forall₂ (R := flip KeepsSetting) h.settings.flip hrow'

theorem HasRow.frame {t t' : Store} {name : String} {id : ℕ} (h : HasRow t.settings name id)
    (hframe : Frame t t') : HasRow t'.settings name id := by
  obtain ⟨row, hrow, hid, hname⟩ := h
  obtain ⟨row', hrow', hkeeps⟩ := hframe.exists_row hrow
  exact ⟨row', hrow', hkeeps.id.trans hid, hkeeps.name.trans hname⟩

theorem MainPc.HasFound.frame {t t' : Store} {pc : MainPc} (h : pc.HasFound t.settings)
    (hframe : Frame t t') : pc.HasFound t'.settings := by
  cases pc with
  | queryBuild bundle version => exact HasRow.frame h hframe
  | commitBundle bundle version build => exact ⟨h.1.frame hframe, h.2.frame hframe⟩
  | _ => trivial

theorem hasRow_of_queryName {t : SettingTable} {name : String} {row : ℕ × Setting}
    (hname : name ∈ settingNames) (h : queryName order t name = some row) : HasRow t name row.1 := by
  obtain ⟨hrow, hrowName⟩ := of_queryName (isPlain_settingNames name hname) h
  exact ⟨row, hrow, rfl, hrowName⟩

/-- What an operation on a table with a shutdown key does. -/
theorem Keyed.operate (h : Keyed key s) {i : ℕ} {pc q : MainPc} {store : Store}
    (hi : s.processes i = some pc) (hop : pc.operate order s.store = some (q, store)) :
    Frame s.store store ∧ q.HasFound store.settings ∧ q.Holds key ∧ ∀ bundle, q ≠ .commitNew bundle := by
  cases pc with
  | emptinessCheck bundle =>
    have hexists : storeExists false s.store = true := by
      obtain ⟨row, hrow, _⟩ := h.held
      exact (storeExists_iff (List.ne_nil_of_mem hrow)).mpr rfl
    simp only [MainPc.operate, hexists] at hop
    cases hop
    exact ⟨.refl _, trivial, trivial, by simp⟩
  | queryVersion bundle =>
    simp only [MainPc.operate] at hop
    split at hop
    · rename_i version hversion
      cases hop
      exact ⟨.refl _, hasRow_of_queryName (by simp [settingNames]) hversion, trivial, by simp⟩
    · cases hop
      exact ⟨.refl _, trivial, trivial, by simp⟩
  | queryBuild bundle version =>
    have hversion : HasRow s.store.settings settingsVersionKey version.1 := h.found i _ hi
    simp only [MainPc.operate] at hop
    split at hop
    · rename_i build hbuild
      cases hop
      exact ⟨.refl _, ⟨hversion, hasRow_of_queryName (by simp [settingNames]) hbuild⟩, trivial, by simp⟩
    · cases hop
      exact ⟨.refl _, trivial, trivial, by simp⟩
  | commitBundle bundle version build =>
    obtain ⟨⟨v, hv, hvid, hvname⟩, b, hb, hbid, hbname⟩ := h.found i _ hi
    cases hop
    exact ⟨updateBundle_frame bundle hv hvid hvname hb hbid hbname, trivial, trivial, by simp⟩
  | queryKey =>
    simp only [MainPc.operate] at hop
    split at hop
    · rename_i sdKey hkey
      cases hop
      obtain ⟨hrow, hname⟩ := of_queryName (isPlain_settingNames _ (by simp [settingNames])) hkey
      exact ⟨.refl _, trivial, h.only sdKey hrow hname, by simp⟩
    · cases hop
      exact ⟨.refl _, trivial, trivial, by simp⟩
  | _ => cases hop

/-- A process that has moved, on a store that keeps the settings. -/
theorem Keyed.move (h : Keyed key s) {i : ℕ} {q : MainPc} {store : Store}
    (hframe : Frame s.store store) (hfound : q.HasFound store.settings) (hholds : q.Holds key)
    (hnew : ∀ bundle, q ≠ .commitNew bundle) (hready : ∀ k, s.processes i ≠ some (.ready k)) :
    Keyed key { s with store := store, processes := Function.update s.processes i (some q) } where
  held := by
    obtain ⟨row, hrow, hname⟩ := h.held
    obtain ⟨row', hrow', hkeeps⟩ := hframe.exists_row hrow
    exact ⟨row', hrow', hkeeps.name.trans hname⟩
  only := by
    intro row' hrow' hname'
    obtain ⟨row, hrow, hkeeps⟩ := hframe.exists_earlier hrow'
    have hname : row.2.name = some settingsShutdownKey := hkeeps.name.symm.trans hname'
    have hvalue : row'.2.value = row.2.value :=
      hkeeps.value (by rw [hname]; decide) (by rw [hname]; decide)
    rw [hvalue]
    exact h.only row hrow hname
  found := forall_update rfl hfound fun j pc _ hj => (h.found j pc hj).frame hframe
  parties := forall_update rfl hholds fun j pc _ hj => h.parties j pc hj
  creator := by
    intro j bundle hj
    have hji : j ≠ i := by
      rintro rfl
      exact hnew bundle (Option.some.inj ((Function.update_self j _ _).symm.trans hj))
    have hj : s.processes j = some (.commitNew bundle) := (Function.update_of_ne hji _ _).symm.trans hj
    obtain ⟨k, uuid, huuid, hk⟩ := h.creator j bundle hj
    refine ⟨k, uuid, huuid, ?_⟩
    have hki : k ≠ i := fun hki => hready _ (hki ▸ hk)
    exact (Function.update_of_ne hki _ _).trans hk

theorem Keyed.start (h : Keyed key s) {i : ℕ} (hi : s.processes i = none) (bundle : Bundle) :
    Keyed key
      { s with processes := Function.update s.processes i (some (.emptinessCheck bundle)) } := by
  refine h.move (.refl _) trivial trivial nofun fun k hk => ?_
  rw [hi] at hk
  cases hk

theorem Keyed.run (h : Keyed key s) {i : ℕ} {pc q : MainPc} {store : Store}
    (hi : s.processes i = some pc) (hop : pc.operate order s.store = some (q, store)) :
    Keyed key { s with store := store, processes := Function.update s.processes i (some q) } := by
  obtain ⟨hframe, hfound, hholds, hnew⟩ := h.operate hi hop
  refine h.move hframe hfound hholds hnew fun k hk => ?_
  obtain rfl : pc = .ready k := Option.some.inj (hi.symm.trans hk)
  cases hop

/-! ## The commits of the initial rows -/

theorem mem_create {store : Store} (hempty : store.settings.rows = []) {bundle : Bundle}
    {sdKey : String} {row : ℕ × Setting} (hrow : row ∈ (store.create bundle sdKey).settings.rows) :
    row.2 ∈ initialSettings bundle sdKey := by
  rcases mem_insertAll.mp hrow with hrow | ⟨k, hk, _⟩
  · rw [hempty] at hrow
    cases hrow
  · exact List.mem_of_getElem? hk

theorem exists_mem_create (store : Store) {bundle : Bundle} {sdKey : String} {setting : Setting}
    (h : setting ∈ initialSettings bundle sdKey) :
    ∃ row ∈ (store.create bundle sdKey).settings.rows, row.2 = setting := by
  obtain ⟨k, hk⟩ := List.mem_iff_getElem?.mp h
  exact ⟨(store.settings.nextId + k, setting), mem_insertAll.mpr (.inr ⟨k, hk, rfl⟩), rfl⟩

theorem value_of_initialSettings {bundle : Bundle} {sdKey : String} {setting : Setting}
    (h : setting ∈ initialSettings bundle sdKey) (hname : setting.name = some settingsShutdownKey) :
    setting.value = some sdKey := by
  simp only [initialSettings, List.mem_cons, List.not_mem_nil, or_false] at h
  rcases h with rfl | rfl | rfl | rfl | rfl
  · exact absurd hname (by decide)
  · exact absurd hname (by decide)
  · exact absurd (show some settingsVersionKey = some settingsShutdownKey from hname) (by decide)
  · exact absurd (show some settingsBuildKey = some settingsShutdownKey from hname) (by decide)
  · rfl

/-- The first commit. -/
theorem Fresh.create (h : Fresh s) (i : ℕ) (bundle : Bundle) (uuid : UUID) :
    Keyed (some (newShutdownKey uuid))
      { store := s.store.create bundle (newShutdownKey uuid)
        processes := Function.update s.processes i (some (.ready (some (newShutdownKey uuid))))
        uuids := uuid :: s.uuids } where
  held := by
    have hkey : ⟨some settingsShutdownKey, some (newShutdownKey uuid)⟩ ∈
        initialSettings bundle (newShutdownKey uuid) := by
      simp [initialSettings]
    obtain ⟨row, hrow, hsetting⟩ := exists_mem_create s.store hkey
    exact ⟨row, hrow, congrArg Setting.name hsetting⟩
  only := by
    intro row hrow hname
    exact value_of_initialSettings (mem_create h.empty hrow) hname
  found := forall_update rfl trivial fun j pc _ hj => by
    have hfirst := h.parties j pc hj
    cases pc <;> trivial
  parties := forall_update rfl rfl fun j pc _ hj => by
    have hfirst := h.parties j pc hj
    cases pc <;> trivial
  creator := fun j bundle' _ =>
    ⟨i, uuid, List.mem_cons_self, Function.update_self i _ _⟩

/-- A commit after the first one: the process that has drawn the key holds another one. -/
theorem Keyed.create_not_agree (h : Keyed key s) {i : ℕ} {bundle : Bundle} {uuid : UUID}
    (hi : s.processes i = some (.commitNew bundle)) (hnew : uuid ∉ s.uuids) :
    ¬ Agree { store := s.store.create bundle (newShutdownKey uuid)
              processes := Function.update s.processes i (some (.ready (some (newShutdownKey uuid))))
              uuids := uuid :: s.uuids } := by
  intro hagree
  obtain ⟨j, first, hfirst, hj⟩ := h.creator i bundle hi
  have hji : j ≠ i := by
    rintro rfl
    cases hi.symm.trans hj
  have hsame := (hagree i j _ _ (Function.update_self i _ _)
    ((Function.update_of_ne hji _ _).trans hj)).1
  have huuid : uuid = first := newShutdownKey_injective (Option.some.inj hsame)
  exact hnew (huuid ▸ hfirst)

/-! ## Runs -/

/-- Nobody has committed yet, or there is one key. -/
def KeyInvariant (s : MainState) : Prop := Fresh s ∨ ∃ key, Keyed key s

theorem keyInvariant_init {store : Store} (h : store.settings.rows = [] ∨ Initialised store) :
    KeyInvariant (.init store) := by
  have hnone : ∀ i pc, (MainState.init store).processes i ≠ some pc := by
    intro i pc hi
    cases hi
  rcases h with hempty | hinit
  · exact .inl ⟨hempty, fun i pc hi => absurd hi (hnone i pc)⟩
  · obtain ⟨row, ⟨hrow, hname⟩, honly⟩ := hinit settingsShutdownKey (by simp [settingNames])
    refine .inr ⟨row.2.value, ⟨row, hrow, hname⟩, ?_, fun i pc hi => absurd hi (hnone i pc),
      fun i pc hi => absurd hi (hnone i pc), fun i bundle hi => absurd hi (hnone i _)⟩
    intro other hother hothername
    rw [honly other ⟨hother, hothername⟩]

theorem KeyInvariant.agree (h : KeyInvariant s) : Agree s := by
  rcases h with hfresh | ⟨key, hkeyed⟩
  · exact hfresh.agree
  · exact hkeyed.agree

theorem KeyInvariant.step (h : KeyInvariant s) (hC : CreatesFirst s e)
    (he : mainStep order s e = some s') : KeyInvariant s' := by
  rcases mainStep_cases he with ⟨i, bundle, rfl, hi, rfl⟩ | ⟨i, uuid, bundle, rfl, hi, hnew, rfl⟩ |
    ⟨i, pc, q, store, rfl, hi, hop, rfl⟩
  · rcases h with hfresh | ⟨key, hkeyed⟩
    · exact .inl ⟨hfresh.empty, forall_update rfl trivial fun j pc _ hj => hfresh.parties j pc hj⟩
    · exact .inr ⟨key, hkeyed.start hi bundle⟩
  · rcases h with hfresh | ⟨key, hkeyed⟩
    · exact .inr ⟨_, hfresh.create i bundle uuid⟩
    · obtain ⟨row, hrow, _⟩ := hkeyed.held
      exact absurd hC (List.ne_nil_of_mem hrow)
  · rcases h with hfresh | ⟨key, hkeyed⟩
    · obtain ⟨hfirst, rfl⟩ := operate_first hfresh.empty (hfresh.parties i pc hi) hop
      exact .inl ⟨hfresh.empty, forall_update rfl hfirst fun j pc _ hj => hfresh.parties j pc hj⟩
    · exact .inr ⟨key, hkeyed.run hi hop⟩

/-- A step keeps the agreement exactly where it does not commit the initial rows a second time. -/
theorem KeyInvariant.agree_step (h : KeyInvariant s) (he : mainStep order s e = some s') :
    Agree s' ↔ CreatesFirst s e := by
  refine ⟨fun hagree => ?_, fun hC => (h.step hC he).agree⟩
  rcases mainStep_cases he with ⟨i, bundle, rfl, _, _⟩ | ⟨i, uuid, bundle, rfl, hi, hnew, rfl⟩ |
    ⟨i, _, _, _, rfl, _, _, _⟩
  · trivial
  · rcases h with hfresh | ⟨key, hkeyed⟩
    · exact hfresh.empty
    · exact absurd hagree (hkeyed.create_not_agree hi hnew)
  · trivial

/-- From an empty or an initialised store on, the processes that have finished `init` agree in every
state exactly where the initial rows are committed to an empty table only. -/
theorem agree_iff {store : Store} (hs : store.settings.rows = [] ∨ Initialised store)
    {es : List MainEvent} (h : EventRuns.run (mainStep order) (.init store) es = some s) :
    Along (mainStep order) CreatesFirst (.init store) es ↔
      ∀ pre m, pre <+: es → EventRuns.run (mainStep order) (.init store) pre = some m → Agree m :=
  along_iff_invariant (I := KeyInvariant) (fun _ _ _ hI _ hC he => hI.step hC he)
    (fun _ _ _ hI _ he => hI.agree_step he) (keyInvariant_init hs) (keyInvariant_init hs).agree h

/-! ## Two first starts -/

def emptyStore : Store := ⟨empty 200, empty 200⟩

def someBundle : Bundle := ⟨"1.0.0", "140630"⟩

/-- A first start, and then a second process. -/
def startThenStop : List MainEvent :=
  [.start 0 someBundle, .run 0, .create 0 ⟨0, 1⟩, .start 1 someBundle, .run 1, .run 1, .run 1, .run 1,
    .run 1]

theorem startThenStop_agree :
    Along (mainStep (.asStored _)) CreatesFirst (.init emptyStore) startThenStop ↔
      ∀ pre m, pre <+: startThenStop →
        EventRuns.run (mainStep (.asStored _)) (.init emptyStore) pre = some m → Agree m :=
  agree_iff (.inl rfl) (Option.some_get
    (by decide +kernel : (EventRuns.run (mainStep (.asStored _)) (.init emptyStore)
      startThenStop).isSome)).symm

/-- Two processes find the store empty before either of them commits. -/
def twoFirstStarts : List MainEvent :=
  [.start 0 someBundle, .start 1 someBundle, .run 0, .run 1, .create 0 ⟨0, 1⟩, .create 1 ⟨0, 2⟩]

theorem twoFirstStarts_disagree : ¬ ∀ (store : Store) (es : List MainEvent) (m : MainState),
    store.settings.rows = [] ∨ Initialised store →
      EventRuns.run (mainStep (.asStored _)) (.init store) es = some m → Agree m := by
  intro h
  have hagree := h emptyStore twoFirstStarts _ (.inl rfl) rfl
  have hsame := (hagree 0 1 (some (newShutdownKey ⟨0, 1⟩)) (some (newShutdownKey ⟨0, 2⟩)) rfl rfl).1
  cases newShutdownKey_injective (Option.some.inj hsame)

end Auth8.Jetty
