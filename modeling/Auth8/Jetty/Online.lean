import Auth8.Jetty.Lifecycle

/-! # One store, one key, one configuration

Where the initial rows are committed to an empty table only, every process can stop the server that is
online, and every server that goes online has the TLS connector of the settings, which no start changes. -/
namespace Auth8.Jetty
open EventRuns KeyedTable LikePattern Persistent Server FormUrl
set_option autoImplicit false

/-! ## A key in the address -/

theorem sentKey_alphanumeric {key : String} (h : key.toList.all Char.isAlphanum = true) :
    sentKey (some key) = some key := by
  have hname : requestShutdownKey.toList.all Char.isAlphanum = true := by decide
  have hsafe : Safe Char.isAlphanum := by
    intro c hc
    constructor
    · rintro rfl
      cases hc
    · rintro rfl
      cases hc
  have hnot : ∀ text : List Char, text.all Char.isAlphanum = true → ∀ c, c.isAlphanum = false →
      c ∉ text := by
    intro text htext c hc hmem
    have halpha := List.all_eq_true.mp htext c hmem
    rw [hc] at halpha
    cases halpha
  have hdecode : ∀ text : List Char, text.all Char.isAlphanum = true →
      decode text = some (String.ofList text) := by
    intro text htext
    have hencoded := decode_encode hsafe text
    rwa [encode_of_kept htext] at hencoded
  have huri : shutdownUri httpPort (some key) = "http://localhost:8080/shutdown/".toList ++
      '?' :: (requestShutdownKey.toList ++ '=' :: key.toList) := by
    have hfront : ("http://localhost:" ++ toString httpPort ++ "/shutdown/?").toList =
        "http://localhost:8080/shutdown/".toList ++ ['?'] := by decide +kernel
    rw [shutdownUri, hfront, List.append_assoc]
    rfl
  have hamp : '&' ∉ requestShutdownKey.toList ++ '=' :: key.toList := by
    rw [List.mem_append, List.mem_cons, not_or, not_or]
    exact ⟨by decide, by decide, hnot _ h _ (by decide)⟩
  have hparameter := parameter_eq (hnot _ hname '=' (by decide)) (hdecode _ hname) (hdecode _ h)
  rw [sentKey, getParameter, huri, query_append (by decide), parse_single hamp (by simp) hparameter]
  simp

theorem digits_alphanumeric (val : BitVec 64) (n : ℕ) : (digits val n).all Char.isAlphanum = true := by
  rw [List.all_eq_true]
  intro c hc
  obtain ⟨d, hd, rfl⟩ := List.mem_map.mp hc
  have hdigit : ∀ d < 16, d.digitChar.isAlphanum = true := by decide
  exact hdigit d (FixedDigits.lt_of_mem_fixedDigits (by decide) hd)

theorem newShutdownKey_alphanumeric (uuid : UUID) :
    (newShutdownKey uuid).toList.all Char.isAlphanum = true := by
  have hlist : (newShutdownKey uuid).toList = uuid.groups.flatten := toList_uniqueRequestId uuid
  simp only [hlist, UUID.groups, List.flatten_cons, List.flatten_nil, List.append_nil, List.all_append,
    digits_alphanumeric, Bool.and_self]

/-! ## The settings of the TLS connector -/

/-- The rows `tls` and `host` are there, and have these values. -/
structure Configured (tls host : Option String) (t : SettingTable) : Prop where
  tls : ∀ row ∈ t.rows, row.2.name = some settingsTlsKey → row.2.value = tls
  host : ∀ row ∈ t.rows, row.2.name = some settingsHostKey → row.2.value = host
  hasTls : ∃ id, HasRow t settingsTlsKey id
  hasHost : ∃ id, HasRow t settingsHostKey id

/-- The alias of the certificate, if there is a TLS connector. -/
def certificate (aliases : Option (List String)) (tls host : Option String) : Option String :=
  if parseBoolean tls then host.map (configureTLS aliases) else none

variable {order : SettingOrder} {aliases : Option (List String)} {tls host key : Option String}

theorem Configured.frame {t t' : Store} (h : Configured tls host t.settings) (hframe : Frame t t') :
    Configured tls host t'.settings := by
  have hvalue : ∀ name, name ≠ settingsVersionKey → name ≠ settingsBuildKey → ∀ value,
      (∀ row ∈ t.settings.rows, row.2.name = some name → row.2.value = value) →
      ∀ row' ∈ t'.settings.rows, row'.2.name = some name → row'.2.value = value := by
    intro name hversion hbuild value hrows row' hrow' hname'
    obtain ⟨row, hrow, hkeeps⟩ := hframe.exists_earlier hrow'
    have hname : row.2.name = some name := hkeeps.name.symm.trans hname'
    have hsame : row'.2.value = row.2.value := by
      refine hkeeps.value ?_ ?_
      · rw [hname]
        exact fun h => hversion (Option.some.inj h)
      · rw [hname]
        exact fun h => hbuild (Option.some.inj h)
    rw [hsame]
    exact hrows row hrow hname
  exact ⟨hvalue _ (by decide) (by decide) _ h.tls, hvalue _ (by decide) (by decide) _ h.host,
    h.hasTls.imp fun _ hrow => hrow.frame hframe, h.hasHost.imp fun _ hrow => hrow.frame hframe⟩

theorem configured_create {store : Store} (hempty : store.settings.rows = []) (bundle : Bundle)
    (sdKey : String) :
    Configured (some "false") (some "localhost") (store.create bundle sdKey).settings := by
  have hrow : ∀ setting ∈ initialSettings bundle sdKey, ∀ name, setting.name = some name →
      ∃ id, HasRow (store.create bundle sdKey).settings name id := by
    intro setting hsetting name hname
    obtain ⟨row, hrow, heq⟩ := exists_mem_create store hsetting
    exact ⟨row.1, row, hrow, rfl, by rw [heq, hname]⟩
  refine ⟨?_, ?_, hrow ⟨some settingsTlsKey, some "false"⟩ (by simp [initialSettings]) _ rfl,
    hrow ⟨some settingsHostKey, some "localhost"⟩ (by simp [initialSettings]) _ rfl⟩
  · intro row hrow hname
    have hmem := mem_create hempty hrow
    simp only [initialSettings, List.mem_cons, List.not_mem_nil, or_false] at hmem
    rcases hmem with h | h | h | h | h
    · rw [h]
    all_goals
      rw [h] at hname
      exact absurd (Option.some.inj hname) (by decide)
  · intro row hrow hname
    have hmem := mem_create hempty hrow
    simp only [initialSettings, List.mem_cons, List.not_mem_nil, or_false] at hmem
    rcases hmem with h | h | h | h | h
    · rw [h] at hname
      exact absurd (Option.some.inj hname) (by decide)
    · rw [h]
    all_goals
      rw [h] at hname
      exact absurd (Option.some.inj hname) (by decide)

/-! ## The invariant -/

/-- Before the first commit the settings are to be those of a new store; after it there is one key, which
an address can carry. -/
inductive Prepared (tls host : Option String) (s : MainState) : Prop
  | fresh (h : Fresh s) (htls : tls = some "false") (hhost : host = some "localhost")
  | keyed (key : String) (halpha : key.toList.all Char.isAlphanum = true) (h : Keyed (some key) s)
      (hconfigured : Configured tls host s.store.settings)

theorem Prepared.step {s s' : MainState} {e : MainEvent} (h : Prepared tls host s)
    (hC : CreatesFirst s e) (he : mainStep order s e = some s') : Prepared tls host s' := by
  rcases mainStep_cases he with ⟨i, bundle, rfl, hi, rfl⟩ | ⟨i, uuid, bundle, rfl, hi, hnew, rfl⟩ |
    ⟨i, pc, q, store, rfl, hi, hop, rfl⟩
  · cases h with
    | fresh h htls hhost =>
      exact .fresh ⟨h.empty, forall_update rfl trivial fun j pc _ hj => h.parties j pc hj⟩ htls hhost
    | keyed key halpha h hconfigured => exact .keyed key halpha (h.start hi bundle) hconfigured
  · cases h with
    | fresh h htls hhost =>
      subst htls
      subst hhost
      exact .keyed _ (newShutdownKey_alphanumeric uuid) (h.create i bundle uuid)
        (configured_create h.empty bundle _)
    | keyed key halpha h hconfigured =>
      obtain ⟨row, hrow, _⟩ := h.held
      exact absurd hC (List.ne_nil_of_mem hrow)
  · cases h with
    | fresh h htls hhost =>
      obtain ⟨hfirst, rfl⟩ := operate_first h.empty (h.parties i pc hi) hop
      exact .fresh ⟨h.empty, forall_update rfl hfirst fun j pc _ hj => h.parties j pc hj⟩ htls hhost
    | keyed key halpha h hconfigured =>
      exact .keyed key halpha (h.run hi hop) (hconfigured.frame (h.operate hi hop).1)

/-- The initial rows are committed to an empty table only. -/
def CreatesOnce (s : LifeState) : LifeEvent → Prop
  | .init e => CreatesFirst s.main e
  | _ => True

instance (s : LifeState) (e : LifeEvent) : Decidable (CreatesOnce s e) :=
  match e with
  | .init e => inferInstanceAs (Decidable (CreatesFirst s.main e))
  | .command _ _ | .run _ | .launch _ _ | .shutdown _ | .request _ | .stopped _ | .kill _ => .isTrue trivial

/-- What a process has chosen from the settings. -/
def LifePc.Chosen (aliases : Option (List String)) (tls host : Option String) : LifePc → Prop
  | .readHost => parseBoolean tls = true
  | .bind certAlias | .serving certAlias | .stopping certAlias => certAlias = certificate aliases tls host
  | _ => True

structure Sound (aliases : Option (List String)) (tls host : Option String) (s : LifeState) : Prop where
  live : Live s
  prepared : Prepared tls host s.main
  chosen : ∀ i pc, s.life i = some pc → pc.Chosen aliases tls host

variable {s s' : LifeState} {e : LifeEvent}

theorem Sound.keyed (h : Sound aliases tls host s) {i : ℕ} {pc : LifePc} (hi : s.life i = some pc) :
    ∃ key, key.toList.all Char.isAlphanum = true ∧ Keyed (some key) s.main ∧
      Configured tls host s.main.store.settings := by
  cases h.prepared with
  | fresh hfresh =>
    obtain ⟨shutdownKey, hkey⟩ := h.live.ready i pc hi
    cases hfresh.parties i _ hkey
  | keyed key halpha hkeyed hconfigured => exact ⟨key, halpha, hkeyed, hconfigured⟩

theorem chosen_move (h : ∀ i pc, s.life i = some pc → pc.Chosen aliases tls host) {i : ℕ} {q : LifePc}
    (hq : q.Chosen aliases tls host) : ∀ j pc, (s.move i q).life j = some pc → pc.Chosen aliases tls host :=
  forall_update rfl hq fun j pc _ hj => h j pc hj

theorem operate_chosen {t : SettingTable} {status : Bool} {pc q : LifePc} (ht : Configured tls host t)
    (hpc : pc.Chosen aliases tls host) (h : pc.operate order aliases t status = some q) :
    q.Chosen aliases tls host := by
  cases pc with
  | start | restart =>
    cases h
    cases status <;> exact trivial
  | readTls =>
    simp only [LifePc.operate] at h
    split at h
    · rename_i row hrow
      cases h
      obtain ⟨hmem, hname⟩ := of_queryName (isPlain_settingNames _ (by simp [settingNames])) hrow
      rw [ht.tls row hmem hname]
      cases hparse : parseBoolean tls with
      | true => exact hparse
      | false =>
        have hnone : certificate aliases tls host = none := by rw [certificate, hparse]; rfl
        exact hnone.symm
    · cases h
      trivial
  | readHost =>
    simp only [LifePc.operate] at h
    split at h
    · rename_i value hvalue
      cases h
      obtain ⟨row, hrow, hrowvalue⟩ := Option.bind_eq_some_iff.mp hvalue
      obtain ⟨hmem, hname⟩ := of_queryName (isPlain_settingNames _ (by simp [settingNames])) hrow
      have hhost : host = some value := (ht.host row hmem hname).symm.trans hrowvalue
      have hparse : parseBoolean tls = true := hpc
      show some (configureTLS aliases value) = certificate aliases tls host
      rw [certificate, hparse, hhost]
      rfl
    · cases h
      trivial
  | sleep =>
    cases h
    trivial
  | _ => cases h

theorem ofArgs_chosen (args : List String) : (LifePc.ofArgs args).Chosen aliases tls host := by
  unfold LifePc.ofArgs
  repeat' split
  all_goals trivial

theorem receive_chosen (h : ∀ i pc, s.life i = some pc → pc.Chosen aliases tls host)
    (parameter : Option String) :
    ∀ i pc, (s.receive parameter).life i = some pc → pc.Chosen aliases tls host := by
  rcases receive_cases s parameter with heq | ⟨j, _, certAlias, _, _, hserving, _, heq⟩
  · rw [heq]
    exact h
  · rw [heq]
    exact chosen_move h (h j (.serving certAlias) hserving)

theorem Sound.step (h : Sound aliases tls host s) (hC : CreatesOnce s e)
    (he : lifeStep order aliases s e = some s') : Sound aliases tls host s' := by
  refine ⟨h.live.step he, ?_, ?_⟩
  · rcases lifeStep_cases he with ⟨e', main, rfl, hmain, rfl⟩ | ⟨i, q, hquiet, rfl⟩ |
      ⟨i, fails, certAlias, rfl, hi, hnone, rfl⟩ | ⟨i, shutdownKey, pc, q, rfl, hkey, hpc, hq, rfl⟩ |
      ⟨parameter, rfl, rfl⟩ | ⟨i, certAlias, rfl, hi, rfl⟩ | ⟨i, pc, rfl, hi, rfl⟩
    · exact h.prepared.step hC hmain
    · exact h.prepared
    · exact h.prepared
    · show Prepared tls host (s.receive (sentKey shutdownKey)).main
      rw [receive_main]
      exact h.prepared
    · rw [receive_main]
      exact h.prepared
    · exact h.prepared
    · exact h.prepared
  · rcases lifeStep_cases he with ⟨e', main, rfl, hmain, rfl⟩ | ⟨i, q, hquiet, rfl⟩ |
      ⟨i, fails, certAlias, rfl, hi, hnone, rfl⟩ | ⟨i, shutdownKey, pc, q, rfl, hkey, hpc, hq, rfl⟩ |
      ⟨parameter, rfl, rfl⟩ | ⟨i, certAlias, rfl, hi, rfl⟩ | ⟨i, pc, rfl, hi, rfl⟩
    · exact h.chosen
    · refine chosen_move h.chosen ?_
      cases hquiet with
      | command _ _ => exact ofArgs_chosen _
      | run hi hop =>
        obtain ⟨_, _, _, hconfigured⟩ := h.keyed hi
        exact operate_chosen hconfigured (h.chosen i _ hi) hop
      | launch _ => trivial
    · exact chosen_move h.chosen (q := .serving certAlias) (h.chosen i (.bind certAlias) hi)
    · refine chosen_move (receive_chosen h.chosen _) ?_
      rcases hq with ⟨_, rfl⟩ | ⟨_, rfl⟩ <;> trivial
    · exact receive_chosen h.chosen _
    · exact chosen_move h.chosen (q := .ended) trivial
    · exact chosen_move h.chosen (q := .ended) trivial

/-! ## Runs -/

/-- An empty table, or five settings among them a shutdown key that an address can carry. -/
inductive Provisioned (tls host : Option String) (store : Store) : Prop
  | empty (h : store.settings.rows = []) (htls : tls = some "false") (hhost : host = some "localhost")
  | initialised (h : Initialised store) (hconfigured : Configured tls host store.settings)
      (hkey : ∀ row ∈ store.settings.rows, row.2.name = some settingsShutdownKey →
        ∃ key, row.2.value = some key ∧ key.toList.all Char.isAlphanum = true)

theorem prepared_init {store : Store} (hs : Provisioned tls host store) :
    Prepared tls host (.init store) := by
  cases hs with
  | empty h htls hhost => exact .fresh ⟨h, fun i pc hi => by cases hi⟩ htls hhost
  | initialised h hconfigured hkey =>
    obtain ⟨row, ⟨hrow, hname⟩, honly⟩ := h settingsShutdownKey (by simp [settingNames])
    obtain ⟨key, hvalue, halpha⟩ := hkey row hrow hname
    refine .keyed key halpha ⟨⟨row, hrow, hname⟩, ?_, fun i pc hi => ?_, fun i pc hi => ?_,
      fun i bundle hi => ?_⟩ hconfigured
    · intro other hother hothername
      rw [honly other ⟨hother, hothername⟩, hvalue]
    · cases hi
    · cases hi
    · cases hi

theorem sound_of_run {store : Store} (hs : Provisioned tls host store) {es : List LifeEvent}
    (hC : Along (lifeStep order aliases) CreatesOnce (.init store) es)
    (h : EventRuns.run (lifeStep order aliases) (.init store) es = some s) : Sound aliases tls host s :=
  run_along (fun _ _ _ hsound hC he => hsound.step hC he)
    ⟨live_init store, prepared_init hs, fun i pc hi => by cases hi⟩ hC h

/-- The processes that are ready hold one key, which an address can carry. -/
theorem Sound.held (h : Sound aliases tls host s) {i : ℕ} {pc : LifePc} (hi : s.life i = some pc) :
    ∃ key, key.toList.all Char.isAlphanum = true ∧ Configured tls host s.main.store.settings ∧
      ∀ k q, s.life k = some q → s.main.processes k = some (.ready (some key)) := by
  obtain ⟨key, halpha, hkeyed, hconfigured⟩ := h.keyed hi
  refine ⟨key, halpha, hconfigured, fun k q hk => ?_⟩
  obtain ⟨shutdownKey, hready⟩ := h.live.ready k q hk
  obtain rfl : shutdownKey = some key := hkeyed.parties k _ hready
  exact hready

theorem Sound.online (h : Sound aliases tls host s) {i : ℕ} {certAlias : Option String}
    (hserving : s.life i = some (.serving certAlias)) : s.http = some i :=
  (h.live.http i).mpr (by rw [hserving]; rfl)

/-- The request of a process with the key of the server that is online. -/
theorem receive_own {i : ℕ} {key : String} {certAlias : Option String}
    (halpha : key.toList.all Char.isAlphanum = true) (hhttp : s.http = some i)
    (hi : s.main.processes i = some (.ready (some key)))
    (hserving : s.life i = some (.serving certAlias)) :
    s.receive (sentKey (some key)) = s.move i (.stopping certAlias) := by
  rw [sentKey_alphanumeric halpha]
  exact receive_eq hhttp hi hserving

/-- Every server that is online, or is about to be, has the TLS connector of the settings. -/
theorem certificate_of_run {store : Store} (hs : Provisioned tls host store) {es : List LifeEvent}
    (hC : Along (lifeStep order aliases) CreatesOnce (.init store) es)
    (h : EventRuns.run (lifeStep order aliases) (.init store) es = some s) {i : ℕ}
    {certAlias : Option String}
    (hi : s.life i = some (.bind certAlias) ∨ s.life i = some (.serving certAlias) ∨
      s.life i = some (.stopping certAlias)) : certAlias = certificate aliases tls host := by
  have hsound := sound_of_run hs hC h
  rcases hi with hi | hi | hi
  · exact hsound.chosen i _ hi
  · exact hsound.chosen i _ hi
  · exact hsound.chosen i _ hi

/-- A server that is being stopped closes the port. -/
theorem stopped_step {i : ℕ} {certAlias : Option String} (hi : s.life i = some (.stopping certAlias)) :
    lifeStep order aliases s (.stopped i) = some { s.move i .ended with http := none } := by
  simp only [lifeStep, hi]

theorem startAndRestart_creates : Along (lifeStep (.asStored _) (some ["localhost"])) CreatesOnce
    (.init emptyStore) startAndRestart := by decide +kernel

theorem restarting_certificate :
    (none : Option String) = certificate (some ["localhost"]) (some "false") (some "localhost") :=
  certificate_of_run (i := 0) (.empty rfl rfl rfl) startAndRestart_creates run_startAndRestart
    (.inr (.inl (by decide +kernel)))

@[simp] theorem move_life (s : LifeState) (i : ℕ) (q : LifePc) : (s.move i q).life i = some q :=
  Function.update_self ..

theorem move_life_ne {i j : ℕ} (h : j ≠ i) (q : LifePc) : (s.move i q).life j = s.life j :=
  Function.update_of_ne h _ _

theorem move_move (s : LifeState) (i : ℕ) (p q : LifePc) : (s.move i p).move i q = s.move i q := by
  simp only [LifeState.move, Function.update_idem]

theorem run_operate {i : ℕ} {pc q : LifePc} (hi : s.life i = some pc)
    (hop : pc.operate order aliases s.main.store.settings s.http.isSome = some q) :
    lifeStep order aliases s (.run i) = some (s.move i q) := by
  simp only [lifeStep, hi, Option.bind_some, hop, Option.map_some]

/-- A row that is there is found. -/
theorem queryName_of_hasRow (order : SettingOrder) {t : SettingTable} {name : String} (hname : name ∈ settingNames)
    (h : ∃ id, HasRow t name id) :
    ∃ row, queryName order t name = some row ∧ row ∈ t.rows ∧ row.2.name = some name := by
  cases hquery : queryName order t name with
  | some row =>
    obtain ⟨hrow, hrowName⟩ := of_queryName (isPlain_settingNames name hname) hquery
    exact ⟨row, rfl, hrow, hrowName⟩
  | none =>
    obtain ⟨_, row, hrow, _, hrowName⟩ := h
    have hno := first_eq_none.mp hquery row hrow
    rw [(any_likeExp_name (isPlain_settingNames name hname) row.2).mpr hrowName] at hno
    cases hno

/-- From the check of the settings a process goes on to start its server. -/
theorem reads_settings (h : Configured tls host s.main.store.settings)
    (hhost : parseBoolean tls = true → host.isSome = true) {j : ℕ} (hj : s.life j = some .readTls) :
    Reachable (lifeStep order aliases) s (s.move j (.bind (certificate aliases tls host))) := by
  obtain ⟨row, hrow, hmem, hname⟩ :=
    queryName_of_hasRow order (by simp [settingNames]) h.hasTls
  have htls := h.tls row hmem hname
  cases hparse : parseBoolean tls with
  | false =>
    have hnone : certificate aliases tls host = none := by rw [certificate, hparse]; rfl
    have hop : LifePc.readTls.operate order aliases s.main.store.settings s.http.isSome =
        some (.bind none) := by
      simp only [LifePc.operate, hrow, htls, hparse]
      rfl
    rw [hnone]
    exact (Reachable.refl s).tail (run_operate hj hop)
  | true =>
    obtain ⟨value, rfl⟩ := Option.isSome_iff_exists.mp (hhost hparse)
    obtain ⟨found, hfound, hfoundMem, hfoundName⟩ :=
      queryName_of_hasRow order (by simp [settingNames]) h.hasHost
    have hvalue := h.host found hfoundMem hfoundName
    have hsome : certificate aliases tls (some value) = some (configureTLS aliases value) := by
      rw [certificate, hparse]
      rfl
    have hop : LifePc.readTls.operate order aliases s.main.store.settings s.http.isSome =
        some .readHost := by
      simp only [LifePc.operate, hrow, htls, hparse]
      rfl
    have hop' : LifePc.readHost.operate order aliases (s.move j .readHost).main.store.settings
        (s.move j .readHost).http.isSome = some (.bind (some (configureTLS aliases value))) := by
      have hquery : (queryName order (s.move j .readHost).main.store.settings settingsHostKey).bind
          (fun host => host.2.value) = some value := by
        rw [show (s.move j .readHost).main.store.settings = s.main.store.settings from rfl, hfound]
        exact hvalue
      simp only [LifePc.operate, hquery]
    have hlast := run_operate (move_life s j .readHost) hop'
    rw [move_move] at hlast
    rw [hsome]
    exact ((Reachable.refl s).tail (run_operate hj hop)).tail hlast

/-- The request of a process that has an own position, on a server that has the same key. -/
theorem shutdown_step {i j : ℕ} {key : String} {certAlias : Option String} {pc q : LifePc}
    (halpha : key.toList.all Char.isAlphanum = true) (hhttp : s.http = some i)
    (hi : s.main.processes i = some (.ready (some key))) (hserving : s.life i = some (.serving certAlias))
    (hj : s.main.processes j = some (.ready (some key))) (hpc : s.life j = some pc)
    (hq : pc = .stop ∧ q = .ended ∨ pc = .restartStop ∧ q = .sleep) :
    lifeStep order aliases s (.shutdown j) = some ((s.move i (.stopping certAlias)).move j q) := by
  have hreceived := receive_own halpha hhttp hi hserving
  rcases hq with ⟨rfl, rfl⟩ | ⟨rfl, rfl⟩
  · simp only [lifeStep, hj, hpc, hreceived]
  · simp only [lifeStep, hj, hpc, hreceived]

/-- A restart can do its work: from every state of a run in which a server is online and another process is
to restart it, it goes on to a state in which that process serves. -/
theorem restart_of_run {store : Store} (hs : Provisioned tls host store) {es : List LifeEvent}
    (hC : Along (lifeStep order aliases) CreatesOnce (.init store) es)
    (h : EventRuns.run (lifeStep order aliases) (.init store) es = some s)
    (hhost : parseBoolean tls = true → host.isSome = true) {i j : ℕ} {certAlias : Option String}
    (hserving : s.life i = some (.serving certAlias)) (hrestart : s.life j = some .restart) :
    ∃ s', Reachable (lifeStep order aliases) s s' ∧ s'.life i = some .ended ∧
      s'.life j = some (.serving (certificate aliases tls host)) := by
  have hsound := sound_of_run hs hC h
  obtain ⟨key, halpha, hconfigured, hheld⟩ := hsound.held hserving
  have hij : i ≠ j := by
    rintro rfl
    cases hserving.symm.trans hrestart
  have hhttp := hsound.online hserving
  -- the old server is asked to stop, and has closed the port
  have hcheck : lifeStep order aliases s (.run j) = some (s.move j .restartStop) :=
    run_operate hrestart (by rw [hhttp]; rfl)
  have hshutdown : lifeStep order aliases (s.move j .restartStop) (.shutdown j) =
      some (((s.move j .restartStop).move i (.stopping certAlias)).move j .sleep) :=
    shutdown_step halpha hhttp (hheld i _ hserving)
      ((move_life_ne hij _).trans hserving) (hheld j _ hrestart) (move_life ..) (.inr ⟨rfl, rfl⟩)
  let asleep := ((s.move j .restartStop).move i (.stopping certAlias)).move j .sleep
  have hstopping : asleep.life i = some (.stopping certAlias) :=
    (move_life_ne hij _).trans (move_life ..)
  have hstopped : lifeStep order aliases asleep (.stopped i) =
      some { asleep.move i .ended with http := none } := stopped_step hstopping
  -- the new one finds the port free
  let free : LifeState := { asleep.move i .ended with http := none }
  have hsleep : free.life j = some .sleep :=
    (move_life_ne (Ne.symm hij) _).trans (move_life ..)
  have hwake : lifeStep order aliases free (.run j) = some (free.move j .start) := run_operate hsleep rfl
  have hoffline : lifeStep order aliases (free.move j .start) (.run j) = some (free.move j .readTls) := by
    have hstart : lifeStep order aliases (free.move j .start) (.run j) =
        some ((free.move j .start).move j .readTls) := run_operate (move_life ..) rfl
    rwa [move_move] at hstart
  have hreads : Reachable (lifeStep order aliases) (free.move j .readTls)
      ((free.move j .readTls).move j (.bind (certificate aliases tls host))) :=
    reads_settings (s := free.move j .readTls) hconfigured hhost (move_life ..)
  rw [move_move] at hreads
  let bound := free.move j (.bind (certificate aliases tls host))
  have hlaunch : lifeStep order aliases bound (.launch j false) =
      some { bound.move j (.serving (certificate aliases tls host)) with http := some j } := by
    have hbind : bound.life j = some (.bind (certificate aliases tls host)) := move_life ..
    simp only [lifeStep, hbind]
    rfl
  refine ⟨_, (((((((Reachable.refl s).tail hcheck).tail hshutdown).tail hstopped).tail hwake).tail
    hoffline).trans hreads).tail hlaunch, ?_, move_life ..⟩
  have hended : free.life i = some .ended := move_life ..
  exact (move_life_ne hij _).trans ((move_life_ne hij _).trans hended)

theorem restarting_restart : ∃ s', Reachable (lifeStep (.asStored _) (some ["localhost"])) restarting s' ∧
    s'.life 0 = some .ended ∧
      s'.life 1 = some (.serving (certificate (some ["localhost"]) (some "false") (some "localhost"))) :=
  restart_of_run (.empty rfl rfl rfl) startAndRestart_creates run_startAndRestart (fun _ => rfl)
    restarting_serves.life (by decide +kernel)

end Auth8.Jetty
