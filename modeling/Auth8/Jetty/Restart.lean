import Auth8.Jetty.Main
import Mathlib.Data.List.Forall2

/-! # Starts on an initialised store

Every start is to change the version and the build only. `exists` takes a query that throws for an empty
store, so a start does more than that exactly when this query throws and its commit does not. -/
namespace Auth8.Jetty
open EventRuns KeyedTable LikePattern Persistent Server
set_option autoImplicit false

variable {order : SettingOrder} {s s' : Store}

inductive StoreEvent where
  /-- a start of a process, which runs `init` -/
  | start (order : SettingOrder) (faults : InitFaults) (bundle : Bundle) (uuid : UUID)
  /-- any change of the users in between -/
  | changeUsers (users : UserTable)

def storeStep (s : Store) : StoreEvent → Option Store
  | .start order faults bundle uuid => some (init order faults bundle uuid s).2
  | .changeUsers users => some { s with users := users }

def settingNames : List String :=
  [settingsTlsKey, settingsHostKey, settingsVersionKey, settingsBuildKey, settingsShutdownKey]

/-- One row for each of the five settings. -/
def Initialised (s : Store) : Prop :=
  ∀ name ∈ settingNames, ∃! row, row ∈ s.settings.rows ∧ row.2.name = some name

/-! ## What a start is to keep -/

/-- The row after a start: a value may have changed if it is that of the version or the build. -/
structure KeepsSetting (row row' : ℕ × Setting) : Prop where
  id : row'.1 = row.1
  name : row'.2.name = row.2.name
  value : row.2.name ≠ some settingsVersionKey → row.2.name ≠ some settingsBuildKey →
    row'.2.value = row.2.value

theorem KeepsSetting.refl (row : ℕ × Setting) : KeepsSetting row row := ⟨rfl, rfl, fun _ _ => rfl⟩

theorem KeepsSetting.trans {row row' row'' : ℕ × Setting} (h : KeepsSetting row row')
    (h' : KeepsSetting row' row'') : KeepsSetting row row'' := by
  refine ⟨h'.id.trans h.id, h'.name.trans h.name, fun hv hb => ?_⟩
  rw [← h.name] at hv hb
  rw [h'.value hv hb]
  rw [h.name] at hv hb
  exact h.value hv hb

/-- Row by row. -/
abbrev KeepsSettings (t t' : SettingTable) : Prop := List.Forall₂ KeepsSetting t.rows t'.rows

theorem KeepsSettings.refl (t : SettingTable) : KeepsSettings t t :=
  List.forall₂_same.mpr fun row _ => .refl row

theorem forall₂_keepsSetting_trans {rows rows' rows'' : List (ℕ × Setting)}
    (h : List.Forall₂ KeepsSetting rows rows') (h' : List.Forall₂ KeepsSetting rows' rows'') :
    List.Forall₂ KeepsSetting rows rows'' := by
  induction h generalizing rows'' with
  | nil => exact h'
  | cons hrow _ ih =>
    cases h' with
    | cons hrow' hrest => exact .cons (hrow.trans hrow') (ih hrest)

theorem KeepsSettings.trans {t t' t'' : SettingTable} (h : KeepsSettings t t')
    (h' : KeepsSettings t' t'') : KeepsSettings t t'' := forall₂_keepsSetting_trans h h'

/-- Writing the value of a row of the version or the build. -/
theorem keepsSettings_writeValue {t : SettingTable} {row : ℕ × Setting} (hrow : row ∈ t.rows)
    (hname : row.2.name = some settingsVersionKey ∨ row.2.name = some settingsBuildKey)
    (read : Option String) (value : String) :
    KeepsSettings t (t.update row.1 (Setting.writeValue read value)) := by
  refine List.forall₂_map_right_iff.mpr (List.forall₂_same.mpr fun q hq => ?_)
  unfold updateRow
  split
  · rename_i hid
    obtain rfl := t.eq_of_id hq hrow hid
    exact ⟨rfl, writeValue_name .., fun hv hb => absurd hname (not_or.mpr ⟨hv, hb⟩)⟩
  · exact .refl q

structure Frame (s s' : Store) : Prop where
  users : s'.users = s.users
  settings : KeepsSettings s.settings s'.settings

theorem Frame.refl (s : Store) : Frame s s := ⟨rfl, .refl _⟩

/-- The rows read may have other values by now. -/
theorem updateBundle_frame {version build v b : ℕ × Setting} (bundle : Bundle)
    (hv : v ∈ s.settings.rows) (hvid : v.1 = version.1) (hvname : v.2.name = some settingsVersionKey)
    (hb : b ∈ s.settings.rows) (hbid : b.1 = build.1) (hbname : b.2.name = some settingsBuildKey) :
    Frame s (s.updateBundle version build bundle) := by
  have hkeeps := keepsSettings_writeValue hv (.inl hvname) version.2.value bundle.version
  rw [hvid] at hkeeps
  refine ⟨rfl, hkeeps.trans ?_⟩
  -- the row of the build, in the table with the new version
  let found := updateRow version.1 (Setting.writeValue version.2.value bundle.version) b
  have hfound : found ∈
      (s.settings.update version.1 (Setting.writeValue version.2.value bundle.version)).rows :=
    mem_update.mpr ⟨b, hb, rfl⟩
  have hname : found.2.name = some settingsBuildKey := by
    rw [← hbname]
    simp only [found, updateRow]
    split
    · exact writeValue_name ..
    · rfl
  have hid : found.1 = build.1 := (updateRow_fst ..).trans hbid
  have hkeeps := keepsSettings_writeValue hfound (.inr hname) build.2.value bundle.build
  rwa [hid] at hkeeps

/-- What a start is to do. -/
def StartFrames (s : Store) (e : StoreEvent) : Prop :=
  ∀ s', storeStep s e = some s' →
    match e with
    | .start _ _ _ _ => Frame s s'
    | .changeUsers _ => True

/-- The query of `exists` succeeds, or the commit of the same start throws. -/
def ChecksStore : StoreEvent → Prop
  | .start _ faults _ _ => faults.existsQuery = true → faults.commit = true
  | .changeUsers _ => True

theorem isPlain_settingNames : ∀ name ∈ settingNames, ∀ c ∈ name.toList, isPlain c = true := by
  have h : settingNames.all (fun name => name.toList.all isPlain) = true := by decide +kernel
  intro name hname c hc
  exact List.all_eq_true.mp (List.all_eq_true.mp h name hname) c hc

/-- A creation adds the default user. -/
theorem create_not_frame (s : Store) (bundle : Bundle) (sdKey : String) :
    ¬ Frame s (s.create bundle sdKey) := by
  intro h
  have hnext : s.users.nextId + 1 = s.users.nextId := congrArg KeyedTable.nextId h.users
  omega

theorem storeExists_iff (hne : s.settings.rows ≠ []) {fault : Bool} :
    storeExists fault s = true ↔ fault = false := by
  cases fault with
  | true => exact iff_of_false nofun nofun
  | false =>
    refine iff_of_true ?_ rfl
    simpa [storeExists] using hne

theorem checksStore_iff (hne : s.settings.rows ≠ []) (e : StoreEvent) :
    ChecksStore e ↔ StartFrames s e := by
  cases e with
  | changeUsers users => exact iff_of_true trivial fun _ _ => trivial
  | start order faults bundle uuid =>
    have hframe : StartFrames s (.start order faults bundle uuid) ↔
        Frame s (init order faults bundle uuid s).2 := by
      constructor
      · intro h
        exact h _ rfl
      · rintro h s' ⟨⟩
        exact h
    rw [hframe]
    rcases init_cases order faults bundle uuid s with
      ⟨hexists, hcommit, hinit⟩ | ⟨hexists, version, build, hversion, hbuild, hinit⟩ | ⟨hthrows, hinit⟩
    · rw [hinit]
      refine iff_of_false ?_ (create_not_frame s bundle _)
      intro hchecks
      have hfault : faults.existsQuery = true := by
        rw [← Bool.not_eq_false, ← storeExists_iff hne, hexists]
        exact Bool.false_ne_true
      rw [hchecks hfault] at hcommit
      cases hcommit
    · rw [hinit]
      have hfault := (storeExists_iff hne).mp hexists
      refine iff_of_true (fun h => absurd h (by rw [hfault]; exact Bool.false_ne_true)) ?_
      obtain ⟨hv, hvname⟩ := of_queryName (isPlain_settingNames _ (by simp [settingNames])) hversion
      obtain ⟨hb, hbname⟩ := of_queryName (isPlain_settingNames _ (by simp [settingNames])) hbuild
      exact updateBundle_frame bundle hv rfl hvname hb rfl hbname
    · rw [hinit]
      refine iff_of_true ?_ (.refl s)
      rcases hthrows with hexists | hcommit
      · have hfault := (storeExists_iff hne).mp hexists
        exact fun h => absurd h (by rw [hfault]; exact Bool.false_ne_true)
      · exact fun _ => hcommit

theorem Initialised.ne_nil (h : Initialised s) : s.settings.rows ≠ [] := by
  obtain ⟨row, ⟨hrow, _⟩, _⟩ := h settingsTlsKey (by simp [settingNames])
  exact List.ne_nil_of_mem hrow

theorem storeStep_ne_nil {e : StoreEvent} (hne : s.settings.rows ≠ []) (hchecks : ChecksStore e)
    (h : storeStep s e = some s') : s'.settings.rows ≠ [] := by
  cases e with
  | changeUsers users =>
    cases h
    exact hne
  | start order faults bundle uuid =>
    have hframe : Frame s s' := (checksStore_iff hne _).mp hchecks s' h
    intro hnil
    have hkeeps := hframe.settings
    rw [KeepsSettings, hnil, List.forall₂_nil_right_iff] at hkeeps
    exact hne hkeeps

/-- From an initialised store on, every start keeps what it is to keep exactly where none takes a query
that throws for an empty store. -/
theorem starts_frame_iff (hs : Initialised s) (es : List StoreEvent) :
    Along storeStep (fun _ e => ChecksStore e) s es ↔ Along storeStep StartFrames s es :=
  along_congr (I := fun s => s.settings.rows ≠ [])
    (fun _ _ _ hne hchecks h => storeStep_ne_nil hne hchecks h)
    (fun _ e hne => checksStore_iff hne e) hs.ne_nil

/-- Over the whole run no setting but the version and the build changes, and none is added. -/
theorem settings_of_starts {es : List StoreEvent} (hs : Initialised s)
    (hchecks : Along storeStep (fun _ e => ChecksStore e) s es) (h : run storeStep s es = some s') :
    KeepsSettings s.settings s'.settings := by
  refine (run_along (P := fun m => m.settings.rows ≠ [] ∧ KeepsSettings s.settings m.settings)
    ?_ ⟨hs.ne_nil, .refl _⟩ hchecks h).2
  rintro m e m' ⟨hne, hkeeps⟩ hC he
  refine ⟨storeStep_ne_nil hne hC he, ?_⟩
  cases e with
  | changeUsers users =>
    cases he
    exact hkeeps
  | start order faults bundle uuid =>
    have hframe : Frame m m' := (checksStore_iff hne _).mp hC m' he
    exact hkeeps.trans hframe.settings

/-! ## A query that throws -/

/-- The store after the first start. -/
def firstStore : Store := (Store.mk (empty 200) (empty 200)).create ⟨"1.0.0", "140630"⟩ "d41d8cd9"

theorem existsUnique_of_filter {rows : List (ℕ × Setting)} {name : String} (row : ℕ × Setting)
    (h : rows.filter (fun r => decide (r.2.name = some name)) = [row]) :
    ∃! r, r ∈ rows ∧ r.2.name = some name := by
  have hiff : ∀ r, (r ∈ rows ∧ r.2.name = some name) ↔ r = row := by
    intro r
    rw [← List.mem_singleton (b := row), ← h, List.mem_filter, decide_eq_true_iff]
  exact ⟨row, (hiff row).mpr rfl, fun r hr => (hiff r).mp hr⟩

theorem firstStore_initialised : Initialised firstStore := by
  intro name hname
  simp only [settingNames, List.mem_cons, List.not_mem_nil, or_false] at hname
  rcases hname with rfl | rfl | rfl | rfl | rfl
  · exact existsUnique_of_filter (200, ⟨some settingsTlsKey, some "false"⟩) (by decide)
  · exact existsUnique_of_filter (201, ⟨some settingsHostKey, some "localhost"⟩) (by decide)
  · exact existsUnique_of_filter (202, ⟨some settingsVersionKey, some "1.0.0"⟩) (by decide)
  · exact existsUnique_of_filter (203, ⟨some settingsBuildKey, some "140630"⟩) (by decide)
  · exact existsUnique_of_filter (204, ⟨some settingsShutdownKey, some "d41d8cd9"⟩)
      (by decide)

/-- The default user is retired, and a later start updates the version. -/
def retiredThenStarted : List StoreEvent :=
  [.changeUsers (empty 201), .start (.asStored _) .none ⟨"1.0.1", "140701"⟩ ⟨0, 1⟩]

theorem retiredThenStarted_frame :
    Along storeStep (fun _ e => ChecksStore e) firstStore retiredThenStarted ↔
      Along storeStep StartFrames firstStore retiredThenStarted :=
  starts_frame_iff firstStore_initialised retiredThenStarted

/-- The default user is retired, and the query of a later start throws: the user is back. -/
theorem failedCheck_recreates : ¬ ∀ (s : Store) (es : List StoreEvent), Initialised s →
    Along storeStep StartFrames s es := by
  intro h
  have hframe := (h firstStore [.changeUsers (empty 201),
    .start (.asStored _) { InitFaults.none with existsQuery := true } ⟨"1.0.1", "140701"⟩ ⟨0, 1⟩]
    firstStore_initialised).2 _ rfl
  exact create_not_frame _ _ _ (hframe.1 _ rfl)

end Auth8.Jetty
