import Auth8.Foundations.EventRuns
import Auth8.Persistent.Setting
import Auth8.Server.UniqueRequestId

/-! # The class `Main`

`init`, which every start of a process runs: it fills an empty store, or updates the version and the build
in a store that has settings, and yields the shutdown key. First as one call whose database operations may
throw, then as any number of processes on one store, one database operation at a time. -/
namespace Auth8.Jetty
open EventRuns KeyedTable LikePattern Persistent Server
set_option autoImplicit false

def settingsShutdownKey : String := "shutdownKey"
def settingsTlsKey : String := "tls"
def settingsHostKey : String := "host"
def settingsVersionKey : String := "version"
def settingsBuildKey : String := "build"
def defaultUserPublicKey : String := "changeit"
def defaultUserPrivateKey : String := "changeit"

/-- The tables `SETTING` and `SUBJECT`. -/
structure Store where
  settings : SettingTable
  users : UserTable

/-- The entries of the resource bundle. -/
structure Bundle where
  version : String
  build : String
  deriving DecidableEq, Repr

def initialSettings (bundle : Bundle) (sdKey : String) : List Setting :=
  [⟨some settingsTlsKey, some "false"⟩, ⟨some settingsHostKey, some "localhost"⟩,
    ⟨some settingsVersionKey, some bundle.version⟩, ⟨some settingsBuildKey, some bundle.build⟩,
    ⟨some settingsShutdownKey, some sdKey⟩]

def defaultUser : User := ⟨some defaultUserPublicKey, some defaultUserPrivateKey⟩

/-- The commit of a new store. -/
def Store.create (s : Store) (bundle : Bundle) (sdKey : String) : Store where
  settings := s.settings.insertAll (initialSettings bundle sdKey)
  users := s.users.insert defaultUser

/-- The commit of the version and the build, on the rows that were read. -/
def Store.updateBundle (s : Store) (version build : ℕ × Setting) (bundle : Bundle) : Store where
  settings := (s.settings.update version.1 (Setting.writeValue version.2.value bundle.version)).update
    build.1 (Setting.writeValue build.2.value bundle.build)
  users := s.users

def newShutdownKey (uuid : UUID) : String := removeHyphens uuid.toString

/-! ## One call -/

/-- Which database operations of `init` throw. -/
structure InitFaults where
  existsQuery : Bool
  versionQuery : Bool
  buildQuery : Bool
  commit : Bool
  keyQuery : Bool
  deriving DecidableEq, Repr

def InitFaults.none : InitFaults := ⟨false, false, false, false, false⟩

/-- `exists()`, which answers false also where the query throws. -/
def storeExists (fault : Bool) (s : Store) : Bool := if fault then false else !s.settings.rows.isEmpty

/-- A query and its `get(0)`, either of which may throw. -/
def firstNamed (fault : Bool) (order : SettingOrder) (t : SettingTable) (name : String) :
    Option (ℕ × Setting) :=
  if fault then none else queryName order t name

/-- The shutdown key, if the process does not end in an exception or in `System.exit`, and the store. -/
def init (order : SettingOrder) (faults : InitFaults) (bundle : Bundle) (uuid : UUID) (s : Store) :
    Option (Option String) × Store :=
  if storeExists faults.existsQuery s then
    match firstNamed faults.versionQuery order s.settings settingsVersionKey,
        firstNamed faults.buildQuery order s.settings settingsBuildKey with
    | some version, some build =>
      if faults.commit then (none, s) else
        let s' := s.updateBundle version build bundle
        ((firstNamed faults.keyQuery order s'.settings settingsShutdownKey).map fun sdKey =>
          sdKey.2.value, s')
    | _, _ => (none, s)
  else if faults.commit then (none, s)
  else (some (some (newShutdownKey uuid)), s.create bundle (newShutdownKey uuid))

variable {order : SettingOrder} {s s' : Store}

theorem of_firstNamed {fault : Bool} {t : SettingTable} {name : String} {row : ℕ × Setting}
    (h : firstNamed fault order t name = some row) : queryName order t name = some row := by
  unfold firstNamed at h
  split at h
  · cases h
  · exact h

/-- A call creates the store, updates it, or leaves it as it is. -/
theorem init_cases (order : SettingOrder) (faults : InitFaults) (bundle : Bundle) (uuid : UUID)
    (s : Store) :
    (storeExists faults.existsQuery s = false ∧ faults.commit = false ∧
      init order faults bundle uuid s =
        (some (some (newShutdownKey uuid)), s.create bundle (newShutdownKey uuid))) ∨
    (storeExists faults.existsQuery s = true ∧ ∃ version build,
      queryName order s.settings settingsVersionKey = some version ∧
      queryName order s.settings settingsBuildKey = some build ∧
      (init order faults bundle uuid s).2 = s.updateBundle version build bundle) ∨
    ((storeExists faults.existsQuery s = true ∨ faults.commit = true) ∧
      (init order faults bundle uuid s).2 = s) := by
  unfold init
  cases hexists : storeExists faults.existsQuery s with
  | false =>
    cases hcommit : faults.commit with
    | true => exact .inr (.inr ⟨.inr rfl, rfl⟩)
    | false => exact .inl ⟨rfl, rfl, rfl⟩
  | true =>
    cases hversion : firstNamed faults.versionQuery order s.settings settingsVersionKey with
    | none => exact .inr (.inr ⟨.inl rfl, rfl⟩)
    | some version =>
      cases hbuild : firstNamed faults.buildQuery order s.settings settingsBuildKey with
      | none => exact .inr (.inr ⟨.inl rfl, rfl⟩)
      | some build =>
        cases faults.commit with
        | true => exact .inr (.inr ⟨.inl rfl, rfl⟩)
        | false =>
          exact .inr (.inl ⟨rfl, version, build, of_firstNamed hversion, of_firstNamed hbuild, rfl⟩)

end Auth8.Jetty
