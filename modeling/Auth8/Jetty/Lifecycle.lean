import Auth8.Foundations.FormUrl
import Auth8.Jetty.SharedKey
import Mathlib.Data.Set.Subsingleton

/-! # The commands of a process

What `main` does after `init`: it starts a server, stops the one that is online by a request with the
shutdown key, or both. A server is online while its process listens at port 8080. -/
namespace Auth8.Jetty
open EventRuns KeyedTable Persistent Server FormUrl
set_option autoImplicit false

def httpPort : ℕ := 8080
def requestShutdownKey : String := "shutdownKey"

/-! ## The TLS connector -/

/-- `Boolean.parseBoolean` of a value that may be null. -/
def parseBoolean (value : Option String) : Bool := value.any fun s => decide (s.toLower = "true")

/-- The aliases of the key store; none where it cannot be read, and every alias is then taken to exist. -/
def keystoreContainsAlias (aliases : Option (List String)) (certAlias : String) : Bool :=
  match aliases with
  | some aliases => aliases.contains certAlias
  | none => true

/-- The alias of the certificate that `configureTLS` sets. -/
def configureTLS (aliases : Option (List String)) (host : String) : String :=
  let certificateAlias := String.ofList (host.toList.map fun c => if c = '.' then '-' else c)
  if keystoreContainsAlias aliases certificateAlias then certificateAlias else "localhost"

/-! ## The request that stops a server -/

/-- The address that `StopHandler.shutdown` calls; a key that is null is written out. -/
def shutdownUri (port : ℕ) (shutdownSecret : Option String) : List Char :=
  ("http://localhost:" ++ toString port ++ "/shutdown/?").toList ++
    (requestShutdownKey.toList ++ '=' :: (shutdownSecret.getD "null").toList)

/-- The parameter of a request for an address. -/
def getParameter (uri : List Char) (name : String) : Option String :=
  (parse (query uri)).bind fun parameters =>
    (parameters.find? fun parameter => decide (parameter.1 = name)).map Prod.snd

def sentKey (shutdownSecret : Option String) : Option String :=
  getParameter (shutdownUri httpPort shutdownSecret) requestShutdownKey

/-! ## The system -/

/-- Where a process is, after `init`. -/
inductive LifePc where
  /-- at the check of the status in `start` -/
  | start
  | readTls
  | readHost
  /-- at `server.start()`, with the alias of the certificate if there is a TLS connector -/
  | bind (certAlias : Option String)
  /-- in `server.join()` -/
  | serving (certAlias : Option String)
  /-- a thread of the server is in `server.stop()` -/
  | stopping (certAlias : Option String)
  | stop
  /-- at the check of the status in `restart` -/
  | restart
  | restartStop
  | sleep
  | ended
  deriving DecidableEq, Repr

/-- The command for the arguments of `main`; the status and the usage are printed, and that is all. -/
def LifePc.ofArgs : List String → LifePc
  | [] => .start
  | arg :: _ =>
    if arg = "start" then .start
    else if arg = "stop" then .stop
    else if arg = "restart" then .restart
    else .ended

/-- The next operation of a process, where it does not involve a server other than by its status. -/
def LifePc.operate (order : SettingOrder) (aliases : Option (List String)) (t : SettingTable)
    (status : Bool) : LifePc → Option LifePc
  | .start => some (if status then .ended else .readTls)
  | .readTls =>
    match queryName order t settingsTlsKey with
    | some tls => some (if parseBoolean tls.2.value then .readHost else .bind none)
    | none => some .ended
  | .readHost =>
    match (queryName order t settingsHostKey).bind fun host => host.2.value with
    | some host => some (.bind (some (configureTLS aliases host)))
    | none => some .ended
  | .restart => some (if status then .restartStop else .start)
  | .sleep => some .start
  | _ => none

structure LifeState where
  main : MainState
  life : ℕ → Option LifePc
  /-- the process that listens at port 8080 -/
  http : Option ℕ

inductive LifeEvent where
  | init (e : MainEvent)
  | command (i : ℕ) (args : List String)
  | run (i : ℕ)
  /-- `server.start()`, which may fail for another reason than a port that is in use -/
  | launch (i : ℕ) (fails : Bool)
  /-- the request of a process -/
  | shutdown (i : ℕ)
  /-- any other request -/
  | request (parameter : Option String)
  /-- `server.stop()` has closed the port, and the process ends -/
  | stopped (i : ℕ)
  | kill (i : ℕ)
  deriving DecidableEq, Repr

def LifeState.init (store : Store) : LifeState := ⟨.init store, fun _ => none, none⟩

def LifeState.move (s : LifeState) (i : ℕ) (pc : LifePc) : LifeState :=
  { s with life := Function.update s.life i (some pc) }

/-- A request with this parameter reaches the server that is online, if there is one. -/
def LifeState.receive (s : LifeState) (parameter : Option String) : LifeState :=
  match s.http with
  | none => s
  | some i =>
    match s.main.processes i, s.life i with
    | some (.ready shutdownKey), some (.serving certAlias) =>
      if StopHandler.handle shutdownKey parameter = .stop then s.move i (.stopping certAlias) else s
    | _, _ => s

def lifeStep (order : SettingOrder) (aliases : Option (List String)) (s : LifeState) :
    LifeEvent → Option LifeState
  | .init e => (mainStep order s.main e).map fun main => { s with main := main }
  | .command i args =>
    match s.main.processes i with
    | some (.ready _) => whenever (s.life i = none) (s.move i (.ofArgs args))
    | _ => none
  | .run i => (s.life i).bind fun pc =>
      (pc.operate order aliases s.main.store.settings s.http.isSome).map fun q => s.move i q
  | .launch i fails =>
    match s.life i with
    | some (.bind certAlias) =>
      some (if fails || s.http.isSome then s.move i .ended
        else { s.move i (.serving certAlias) with http := some i })
    | _ => none
  | .shutdown i =>
    match s.main.processes i, s.life i with
    | some (.ready shutdownKey), some .stop => some ((s.receive (sentKey shutdownKey)).move i .ended)
    | some (.ready shutdownKey), some .restartStop =>
      some ((s.receive (sentKey shutdownKey)).move i .sleep)
    | _, _ => none
  | .request parameter => some (s.receive parameter)
  | .stopped i =>
    match s.life i with
    | some (.stopping _) => some { s.move i .ended with http := none }
    | _ => none
  | .kill i =>
    match s.life i with
    | some pc => whenever (pc ≠ .ended)
        { s.move i .ended with http := if s.http = some i then none else s.http }
    | none => none

/-- The parameter that an event brings to the server. -/
def LifeState.parameter (s : LifeState) : LifeEvent → Option String
  | .shutdown i =>
    match s.main.processes i with
    | some (.ready shutdownKey) => sentKey shutdownKey
    | _ => none
  | .request parameter => parameter
  | _ => none

/-! ## What a step does -/

variable {order : SettingOrder} {aliases : Option (List String)} {s s' : LifeState} {e : LifeEvent}

/-- A step that changes the position of one process and nothing else, and that no server sees. -/
inductive Quiet (order : SettingOrder) (aliases : Option (List String)) (s : LifeState) :
    LifeEvent → ℕ → LifePc → Prop
  | command {i : ℕ} {args : List String} {shutdownKey : Option String}
      (hi : s.main.processes i = some (.ready shutdownKey)) (hnone : s.life i = none) :
      Quiet order aliases s (.command i args) i (.ofArgs args)
  | run {i : ℕ} {pc q : LifePc} (hi : s.life i = some pc)
      (hop : pc.operate order aliases s.main.store.settings s.http.isSome = some q) :
      Quiet order aliases s (.run i) i q
  | launch {i : ℕ} {fails : Bool} {certAlias : Option String} (hi : s.life i = some (.bind certAlias)) :
      Quiet order aliases s (.launch i fails) i .ended

theorem lifeStep_cases (h : lifeStep order aliases s e = some s') :
    (∃ e' main, e = .init e' ∧ mainStep order s.main e' = some main ∧ s' = { s with main := main }) ∨
    (∃ i q, Quiet order aliases s e i q ∧ s' = s.move i q) ∨
    (∃ i fails certAlias, e = .launch i fails ∧ s.life i = some (.bind certAlias) ∧ s.http = none ∧
      s' = { s.move i (.serving certAlias) with http := some i }) ∨
    (∃ i shutdownKey pc q, e = .shutdown i ∧ s.main.processes i = some (.ready shutdownKey) ∧
      s.life i = some pc ∧ (pc = .stop ∧ q = .ended ∨ pc = .restartStop ∧ q = .sleep) ∧
      s' = (s.receive (sentKey shutdownKey)).move i q) ∨
    (∃ parameter, e = .request parameter ∧ s' = s.receive parameter) ∨
    (∃ i certAlias, e = .stopped i ∧ s.life i = some (.stopping certAlias) ∧
      s' = { s.move i .ended with http := none }) ∨
    (∃ i pc, e = .kill i ∧ s.life i = some pc ∧
      s' = { s.move i .ended with http := if s.http = some i then none else s.http }) := by
  cases e with
  | init e' =>
    obtain ⟨main, hmain, rfl⟩ := Option.map_eq_some_iff.mp h
    exact .inl ⟨e', main, rfl, hmain, rfl⟩
  | command i args =>
    simp only [lifeStep] at h
    split at h
    · rename_i shutdownKey hi
      obtain ⟨hnone, rfl⟩ := whenever_eq_some.mp h
      exact .inr (.inl ⟨i, _, .command hi hnone, rfl⟩)
    · cases h
  | run i =>
    obtain ⟨pc, hi, hpc⟩ := Option.bind_eq_some_iff.mp h
    obtain ⟨q, hop, rfl⟩ := Option.map_eq_some_iff.mp hpc
    exact .inr (.inl ⟨i, q, .run hi hop, rfl⟩)
  | launch i fails =>
    simp only [lifeStep] at h
    split at h
    · rename_i certAlias hi
      split at h
      · cases h
        exact .inr (.inl ⟨i, _, .launch hi, rfl⟩)
      · rename_i hfree
        cases h
        obtain ⟨_, hnone⟩ : fails = false ∧ s.http = none := by simpa using hfree
        exact .inr (.inr (.inl ⟨i, fails, certAlias, rfl, hi, hnone, rfl⟩))
    · cases h
  | shutdown i =>
    simp only [lifeStep] at h
    split at h
    · rename_i shutdownKey hi hstop
      cases h
      exact .inr (.inr (.inr (.inl ⟨i, shutdownKey, _, _, rfl, hi, hstop, .inl ⟨rfl, rfl⟩, rfl⟩)))
    · rename_i shutdownKey hi hstop
      cases h
      exact .inr (.inr (.inr (.inl ⟨i, shutdownKey, _, _, rfl, hi, hstop, .inr ⟨rfl, rfl⟩, rfl⟩)))
    · cases h
  | request parameter =>
    cases h
    exact .inr (.inr (.inr (.inr (.inl ⟨parameter, rfl, rfl⟩))))
  | stopped i =>
    simp only [lifeStep] at h
    split at h
    · rename_i certAlias hi
      cases h
      exact .inr (.inr (.inr (.inr (.inr (.inl ⟨i, certAlias, rfl, hi, rfl⟩)))))
    · cases h
  | kill i =>
    simp only [lifeStep] at h
    split at h
    · rename_i pc hi
      obtain ⟨_, rfl⟩ := whenever_eq_some.mp h
      exact .inr (.inr (.inr (.inr (.inr (.inr ⟨i, pc, rfl, hi, rfl⟩)))))
    · cases h

def LifePc.online : LifePc → Bool
  | .serving _ | .stopping _ => true
  | _ => false

/-- Only a request with the key of the server that is online changes anything. -/
theorem receive_cases (s : LifeState) (parameter : Option String) :
    s.receive parameter = s ∨ ∃ i key certAlias, s.http = some i ∧
      s.main.processes i = some (.ready (some key)) ∧ s.life i = some (.serving certAlias) ∧
      parameter = some key ∧ s.receive parameter = s.move i (.stopping certAlias) := by
  unfold LifeState.receive
  split
  · exact .inl rfl
  · rename_i i hhttp
    split
    · rename_i shutdownKey certAlias hi hserving
      split
      · rename_i hstop
        cases parameter with
        | none => cases hstop
        | some key =>
          obtain rfl := handle_eq_stop.mp hstop
          exact .inr ⟨i, key, certAlias, hhttp, hi, hserving, rfl, rfl⟩
      · exact .inl rfl
    · exact .inl rfl

@[simp] theorem receive_main (s : LifeState) (parameter : Option String) :
    (s.receive parameter).main = s.main := by
  rcases receive_cases s parameter with heq | ⟨_, _, _, _, _, _, _, heq⟩
  · rw [heq]
  · rw [heq]
    rfl

/-- A process that is not serving does not notice. -/
theorem receive_life {i : ℕ} {pc : LifePc} (hi : s.life i = some pc) (hpc : pc.online = false)
    (parameter : Option String) : (s.receive parameter).life i = some pc := by
  rcases receive_cases s parameter with heq | ⟨j, _, _, _, _, hserving, _, heq⟩
  · rw [heq]
    exact hi
  · have hij : i ≠ j := by
      rintro rfl
      obtain rfl := Option.some.inj (hi.symm.trans hserving)
      cases hpc
    rw [heq]
    exact (Function.update_of_ne hij _ _).trans hi

theorem receive_eq {i : ℕ} {key : String} {certAlias : Option String} (hhttp : s.http = some i)
    (hi : s.main.processes i = some (.ready (some key))) (hserving : s.life i = some (.serving certAlias)) :
    s.receive (some key) = s.move i (.stopping certAlias) := by
  simp only [LifeState.receive, hhttp, hi, hserving, handle_eq_stop.mpr rfl, if_true]

/-! ## The server that is online -/

/-- The processes have run `init`, and the one that listens is the one that is online. -/
structure Live (s : LifeState) : Prop where
  ready : ∀ i pc, s.life i = some pc → ∃ shutdownKey, s.main.processes i = some (.ready shutdownKey)
  http : ∀ i, s.http = some i ↔ (s.life i).any LifePc.online = true

theorem ready_of_mainStep {m m' : MainState} {e : MainEvent} {i : ℕ} {shutdownKey : Option String}
    (hi : m.processes i = some (.ready shutdownKey)) (h : mainStep order m e = some m') :
    m'.processes i = some (.ready shutdownKey) := by
  rcases mainStep_cases h with ⟨j, bundle, rfl, hj, rfl⟩ | ⟨j, uuid, bundle, rfl, hj, _, rfl⟩ |
    ⟨j, pc, q, store, rfl, hj, hop, rfl⟩
  · have hij : i ≠ j := by
      rintro rfl
      cases hi.symm.trans hj
    rw [← hi]
    exact Function.update_of_ne hij _ _
  · have hij : i ≠ j := by
      rintro rfl
      cases hi.symm.trans hj
    rw [← hi]
    exact Function.update_of_ne hij _ _
  · have hij : i ≠ j := by
      rintro rfl
      obtain rfl := Option.some.inj (hi.symm.trans hj)
      cases hop
    rw [← hi]
    exact Function.update_of_ne hij _ _

theorem Live.move (h : Live s) {i : ℕ} {q : LifePc} {shutdownKey : Option String}
    (hi : s.main.processes i = some (.ready shutdownKey)) (hq : (s.life i).any LifePc.online = q.online) :
    Live (s.move i q) where
  ready j pc hj := by
    by_cases hji : j = i
    · exact ⟨shutdownKey, hji ▸ hi⟩
    · exact h.ready j pc ((Function.update_of_ne hji _ _).symm.trans hj)
  http j := by
    by_cases hji : j = i
    · subst hji
      have hself : (s.move j q).life j = some q := Function.update_self ..
      rw [hself, Option.any_some, ← hq]
      exact h.http j
    · have hother : (s.move i q).life j = s.life j := Function.update_of_ne hji _ _
      rw [hother]
      exact h.http j

theorem Live.receive (h : Live s) (parameter : Option String) : Live (s.receive parameter) := by
  rcases receive_cases s parameter with heq | ⟨i, key, certAlias, _, hi, hserving, _, heq⟩
  · rw [heq]
    exact h
  · rw [heq]
    exact h.move hi (by rw [hserving]; rfl)

theorem operate_offline {pc q : LifePc} {t : SettingTable} {status : Bool}
    (h : pc.operate order aliases t status = some q) : pc.online = false ∧ q.online = false := by
  cases pc with
  | start | restart =>
    cases h
    cases status <;> exact ⟨rfl, rfl⟩
  | readTls =>
    simp only [LifePc.operate] at h
    split at h
    · rename_i tls _
      cases h
      cases parseBoolean tls.2.value <;> exact ⟨rfl, rfl⟩
    · cases h
      exact ⟨rfl, rfl⟩
  | readHost =>
    simp only [LifePc.operate] at h
    split at h
    · cases h
      exact ⟨rfl, rfl⟩
    · cases h
      exact ⟨rfl, rfl⟩
  | sleep =>
    cases h
    exact ⟨rfl, rfl⟩
  | _ => cases h

theorem ofArgs_offline (args : List String) : (LifePc.ofArgs args).online = false := by
  unfold LifePc.ofArgs
  repeat' split
  all_goals rfl

theorem Quiet.ready {i : ℕ} {q : LifePc} (h : Quiet order aliases s e i q) (hlive : Live s) :
    (∃ shutdownKey, s.main.processes i = some (.ready shutdownKey)) ∧
      (s.life i).any LifePc.online = false ∧ q.online = false := by
  cases h with
  | command hi hnone =>
    rw [hnone]
    exact ⟨⟨_, hi⟩, rfl, ofArgs_offline _⟩
  | run hi hop =>
    rw [hi]
    exact ⟨hlive.ready i _ hi, operate_offline hop⟩
  | launch hi =>
    rw [hi]
    exact ⟨hlive.ready i _ hi, rfl, rfl⟩

/-- Of the others nothing changes where the process that goes online or offline is the one that listens. -/
theorem Live.switch (h : Live s) {i : ℕ} {q : LifePc} {shutdownKey : Option String} {http : Option ℕ}
    (hi : s.main.processes i = some (.ready shutdownKey)) (hself : http = some i ↔ q.online = true)
    (hothers : ∀ j, j ≠ i → (http = some j ↔ s.http = some j)) :
    Live { s.move i q with http := http } where
  ready j pc hj := by
    by_cases hji : j = i
    · exact ⟨shutdownKey, hji ▸ hi⟩
    · exact h.ready j pc ((Function.update_of_ne hji _ _).symm.trans hj)
  http j := by
    by_cases hji : j = i
    · subst hji
      have hq : (s.move j q).life j = some q := Function.update_self ..
      simp only [hq, Option.any_some]
      exact hself
    · have hother : (s.move i q).life j = s.life j := Function.update_of_ne hji _ _
      simp only [hother]
      exact (hothers j hji).trans (h.http j)

theorem Live.step (h : Live s) (he : lifeStep order aliases s e = some s') : Live s' := by
  rcases lifeStep_cases he with ⟨e', main, rfl, hmain, rfl⟩ | ⟨i, q, hquiet, rfl⟩ |
    ⟨i, fails, certAlias, rfl, hi, hnone, rfl⟩ |
    ⟨i, shutdownKey, pc, q, rfl, hkey, hpc, hq, rfl⟩ | ⟨parameter, rfl, rfl⟩ |
    ⟨i, certAlias, rfl, hi, rfl⟩ | ⟨i, pc, rfl, hi, rfl⟩
  · refine ⟨fun i pc hi => ?_, h.http⟩
    obtain ⟨shutdownKey, hkey⟩ := h.ready i pc hi
    exact ⟨shutdownKey, ready_of_mainStep hkey hmain⟩
  · obtain ⟨⟨shutdownKey, hkey⟩, hold, hnew⟩ := hquiet.ready h
    exact h.move hkey (hold.trans hnew.symm)
  · obtain ⟨shutdownKey, hkey⟩ := h.ready i _ hi
    refine h.switch hkey (iff_of_true rfl rfl) fun j hj => ?_
    rw [hnone, Option.some.injEq]
    exact iff_of_false (Ne.symm hj) (Option.some_ne_none j).symm
  · have hreceived := h.receive (sentKey shutdownKey)
    have hmain : (s.receive (sentKey shutdownKey)).main.processes i = some (.ready shutdownKey) := by
      rw [receive_main]
      exact hkey
    have hoffline : pc.online = false := by rcases hq with ⟨rfl, _⟩ | ⟨rfl, _⟩ <;> rfl
    refine hreceived.move hmain ?_
    rw [receive_life hpc hoffline]
    rcases hq with ⟨rfl, rfl⟩ | ⟨rfl, rfl⟩ <;> rfl
  · exact h.receive parameter
  · obtain ⟨shutdownKey, hkey⟩ := h.ready i _ hi
    have hhttp : s.http = some i := (h.http i).mpr (by rw [hi]; rfl)
    refine h.switch hkey (iff_of_false (Option.some_ne_none i).symm (by decide)) fun j hj => ?_
    rw [hhttp, Option.some.injEq]
    exact iff_of_false (Option.some_ne_none j).symm (Ne.symm hj)
  · obtain ⟨shutdownKey, hkey⟩ := h.ready i _ hi
    refine h.switch hkey ?_ fun j hj => ?_
    · refine iff_of_false ?_ (by decide)
      split <;> simp_all
    · split <;> simp_all [eq_comm]

theorem live_init (store : Store) : Live (.init store) where
  ready i pc hi := by cases hi
  http i := iff_of_false (Option.some_ne_none i).symm Bool.false_ne_true

theorem live_of_run {store : Store} {es : List LifeEvent}
    (h : EventRuns.run (lifeStep order aliases) (.init store) es = some s) : Live s :=
  run_invariant (fun _ _ _ hlive he => hlive.step he) (live_init store) h

/-- The port has one server at most. -/
theorem one_server {store : Store} {es : List LifeEvent}
    (h : EventRuns.run (lifeStep order aliases) (.init store) es = some s) :
    {i | (s.life i).any LifePc.online = true}.Subsingleton := by
  have hlive := live_of_run h
  intro i hi j hj
  exact Option.some.inj (((hlive.http i).mpr hi).symm.trans ((hlive.http j).mpr hj))

/-- A first start, and then a second process that is to restart the server. -/
def startAndRestart : List LifeEvent :=
  [.init (.start 0 someBundle), .init (.run 0), .init (.create 0 ⟨0, 1⟩), .command 0 [], .run 0, .run 0,
    .launch 0 false, .init (.start 1 someBundle), .init (.run 1), .init (.run 1), .init (.run 1),
    .init (.run 1), .init (.run 1), .command 1 ["restart"]]

theorem startAndRestart_isSome : (EventRuns.run (lifeStep (.asStored _) (some ["localhost"]))
    (.init emptyStore) startAndRestart).isSome = true := by decide +kernel

def restarting : LifeState := (EventRuns.run (lifeStep (.asStored _) (some ["localhost"]))
  (.init emptyStore) startAndRestart).get startAndRestart_isSome

theorem run_startAndRestart : EventRuns.run (lifeStep (.asStored _) (some ["localhost"]))
    (.init emptyStore) startAndRestart = some restarting := (Option.some_get _).symm

/-! ## What takes a server offline -/

/-- The event does not kill the process, and does not bring its shutdown key. -/
def Spares (i : ℕ) (s : LifeState) (e : LifeEvent) : Prop :=
  e ≠ .kill i ∧ ∀ key, s.parameter e = some key → s.main.processes i ≠ some (.ready (some key))

/-- The server of process `i` is online, and has the shutdown key. -/
structure Serves (i : ℕ) (certAlias shutdownKey : Option String) (s : LifeState) : Prop where
  main : s.main.processes i = some (.ready shutdownKey)
  life : s.life i = some (.serving certAlias)

variable {i : ℕ} {certAlias shutdownKey : Option String}

theorem Serves.move (h : Serves i certAlias shutdownKey s) {j : ℕ} {pc q : LifePc} (hj : s.life j = some pc)
    (hne : pc ≠ .serving certAlias) : Serves i certAlias shutdownKey (s.move j q) where
  main := h.main
  life := by
    have hij : i ≠ j := by
      rintro rfl
      exact hne (Option.some.inj (hj.symm.trans h.life))
    exact (Function.update_of_ne hij _ _).trans h.life

theorem Serves.receive (h : Serves i certAlias shutdownKey s) {parameter : Option String}
    (hother : ∀ key, parameter = some key → shutdownKey ≠ some key) :
    Serves i certAlias shutdownKey (s.receive parameter) := by
  rcases receive_cases s parameter with heq | ⟨j, key, alias', _, hj, hserving, hparameter, heq⟩
  · rw [heq]
    exact h
  · have hij : i ≠ j := by
      rintro rfl
      have hkey := Option.some.inj (h.main.symm.trans hj)
      exact hother key hparameter (MainPc.ready.inj hkey)
    rw [heq]
    exact ⟨h.main, (Function.update_of_ne hij _ _).trans h.life⟩

theorem Serves.step (h : Serves i certAlias shutdownKey s) (hspares : Spares i s e)
    (he : lifeStep order aliases s e = some s') : Serves i certAlias shutdownKey s' := by
  have hother : ∀ key, s.parameter e = some key → shutdownKey ≠ some key := by
    rintro key hkey rfl
    exact hspares.2 key hkey h.main
  rcases lifeStep_cases he with ⟨e', main, rfl, hmain, rfl⟩ | ⟨j, q, hquiet, rfl⟩ |
    ⟨j, fails, alias', rfl, hj, hnone, rfl⟩ |
    ⟨j, shutdownKey', pc, q, rfl, hkey, hpc, hq, rfl⟩ | ⟨parameter, rfl, rfl⟩ |
    ⟨j, alias', rfl, hj, rfl⟩ | ⟨j, pc, rfl, hj, rfl⟩
  · exact ⟨ready_of_mainStep h.main hmain, h.life⟩
  · cases hquiet with
    | command hj hnone =>
      have hij : i ≠ j := by
        rintro rfl
        cases hnone.symm.trans h.life
      exact ⟨h.main, (Function.update_of_ne hij _ _).trans h.life⟩
    | run hj hop =>
      refine h.move hj ?_
      rintro rfl
      cases hop
    | launch hj => exact h.move hj (by simp)
  · have hmoved := h.move (q := .serving alias') hj (by simp)
    exact ⟨hmoved.main, hmoved.life⟩
  · have hparameter : s.parameter (.shutdown j) = sentKey shutdownKey' := by
      simp only [LifeState.parameter, hkey]
    rw [hparameter] at hother
    have hoffline : pc.online = false := by rcases hq with ⟨rfl, _⟩ | ⟨rfl, _⟩ <;> rfl
    refine (h.receive hother).move (receive_life hpc hoffline _) ?_
    rintro rfl
    cases hoffline
  · exact h.receive hother
  · have hmoved := h.move (q := .ended) hj (by simp)
    exact ⟨hmoved.main, hmoved.life⟩
  · have hij : i ≠ j := by
      rintro rfl
      exact hspares.1 rfl
    exact ⟨h.main, (Function.update_of_ne hij _ _).trans h.life⟩

/-- A server stays online until its process is killed or a request brings the key that the process has
from `init`. -/
theorem serves_of_run {es : List LifeEvent} (h : Serves i certAlias shutdownKey s)
    (hspares : Along (lifeStep order aliases) (Spares i) s es)
    (hrun : EventRuns.run (lifeStep order aliases) s es = some s') : Serves i certAlias shutdownKey s' :=
  run_along (fun _ _ _ hserves hC he => hserves.step hC he) h hspares hrun

theorem restarting_serves : Serves 0 none (some (newShutdownKey ⟨0, 1⟩)) restarting :=
  ⟨by decide +kernel, by decide +kernel⟩

/-- Requests with another key, and with none. -/
def strangers : List LifeEvent := [.request (some "changeit"), .request none]

theorem strangers_spare :
    Along (lifeStep (.asStored _) (some ["localhost"])) (Spares 0) restarting strangers := by
  refine ⟨⟨by decide, ?_⟩, fun m _ => ⟨⟨by decide, ?_⟩, fun _ _ => trivial⟩⟩
  · intro key hkey
    obtain rfl : "changeit" = key := Option.some.inj hkey
    decide +kernel
  · intro key hkey
    cases hkey

theorem strangers_isSome : (EventRuns.run (lifeStep (.asStored _) (some ["localhost"])) restarting
    strangers).isSome = true := by decide +kernel

theorem restarting_serves_on : Serves 0 none (some (newShutdownKey ⟨0, 1⟩))
    ((EventRuns.run (lifeStep (.asStored _) (some ["localhost"])) restarting strangers).get
      strangers_isSome) :=
  serves_of_run restarting_serves strangers_spare (Option.some_get _).symm

/-! ## While a server is online -/

/-- The process is in `start`, beyond the check of the status. -/
def LifePc.starting : LifePc → Bool
  | .readTls | .readHost | .bind _ | .serving _ | .stopping _ => true
  | _ => false

/-- The process has not got beyond the check. -/
def Waits (j : ℕ) (s : LifeState) : Prop := ∀ pc, s.life j = some pc → pc.starting = false

theorem ofArgs_starting (args : List String) : (LifePc.ofArgs args).starting = false := by
  unfold LifePc.ofArgs
  repeat' split
  all_goals rfl

/-- A check that finds a server online ends a `start`, and turns a `restart` to the shutdown request. -/
theorem operate_starting {pc q : LifePc} {t : SettingTable} (hpc : pc.starting = false)
    (h : pc.operate order aliases t true = some q) : q.starting = false := by
  cases pc with
  | start | restart | sleep =>
    cases h
    rfl
  | readTls | readHost | bind | serving | stopping => cases hpc
  | _ => cases h

variable {j : ℕ}

theorem Waits.move (h : Waits j s) {k : ℕ} {q : LifePc} (hq : k = j → q.starting = false) :
    Waits j (s.move k q) := by
  intro pc hpc
  by_cases hjk : j = k
  · subst hjk
    have hself : (s.move j q).life j = some q := Function.update_self ..
    obtain rfl := Option.some.inj (hself.symm.trans hpc)
    exact hq rfl
  · exact h pc ((Function.update_of_ne hjk _ _).symm.trans hpc)

theorem Waits.receive (h : Waits j s) (hhttp : s.http = some i) (hj : j ≠ i) (parameter : Option String) :
    Waits j (s.receive parameter) := by
  rcases receive_cases s parameter with heq | ⟨k, _, _, hk, _, _, _, heq⟩
  · rw [heq]
    exact h
  · rw [heq]
    obtain rfl : i = k := Option.some.inj (hhttp.symm.trans hk)
    exact h.move fun hij => absurd hij (Ne.symm hj)

theorem Waits.step (h : Waits j s) (hhttp : s.http = some i) (hj : j ≠ i)
    (he : lifeStep order aliases s e = some s') : Waits j s' := by
  rcases lifeStep_cases he with ⟨e', main, rfl, hmain, rfl⟩ | ⟨k, q, hquiet, rfl⟩ |
    ⟨k, fails, alias', rfl, hk, hnone, rfl⟩ |
    ⟨k, shutdownKey', pc, q, rfl, hkey, hpc, hq, rfl⟩ | ⟨parameter, rfl, rfl⟩ |
    ⟨k, alias', rfl, hk, rfl⟩ | ⟨k, pc, rfl, hk, rfl⟩
  · exact h
  · refine h.move fun hkj => ?_
    cases hquiet with
    | command _ _ => exact ofArgs_starting _
    | run hk hop =>
      rw [hhttp] at hop
      exact operate_starting (h _ (hkj ▸ hk)) hop
    | launch _ => rfl
  · rw [hhttp] at hnone
    cases hnone
  · refine (h.receive hhttp hj _).move fun _ => ?_
    rcases hq with ⟨_, rfl⟩ | ⟨_, rfl⟩ <;> rfl
  · exact h.receive hhttp hj _
  · exact h.move (q := .ended) fun _ => rfl
  · exact h.move (q := .ended) fun _ => rfl

/-- While a server stays online, no other process gets beyond the check of its `start`: neither those that
are about to start, nor those that come later, nor those that restart and do not have the key. -/
theorem waits_while_serving {store : Store} {es fs : List LifeEvent}
    (h : EventRuns.run (lifeStep order aliases) (.init store) es = some s)
    (hserves : Serves i certAlias shutdownKey s)
    (hspares : Along (lifeStep order aliases) (Spares i) s fs)
    (hrun : EventRuns.run (lifeStep order aliases) s fs = some s') (hj : j ≠ i) (hwaits : Waits j s) :
    Waits j s' := by
  refine (run_along (P := fun m => (Live m ∧ Serves i certAlias shutdownKey m) ∧ Waits j m) ?_
    ⟨⟨live_of_run h, hserves⟩, hwaits⟩ hspares hrun).2
  rintro m e m' ⟨⟨hlive, hserving⟩, hwaiting⟩ hC he
  have hhttp : m.http = some i := (hlive.http i).mpr (by rw [hserving.life]; rfl)
  exact ⟨⟨hlive.step he, hserving.step hC he⟩, hwaiting.step hhttp hj he⟩

/-- A third process, which is to start a server as well. -/
def thirdStart : List LifeEvent :=
  [.init (.start 2 someBundle), .init (.run 2), .init (.run 2), .init (.run 2), .init (.run 2),
    .init (.run 2), .command 2 [], .run 2]

theorem thirdStart_spares :
    Along (lifeStep (.asStored _) (some ["localhost"])) (Spares 0) restarting thirdStart := by
  refine along_of_forall fun s e he => ?_
  simp only [thirdStart, List.mem_cons, List.not_mem_nil, or_false] at he
  rcases he with rfl | rfl | rfl | rfl | rfl | rfl | rfl | rfl <;>
    exact ⟨LifeEvent.noConfusion, fun _ hkey => by cases hkey⟩

theorem thirdStart_isSome : (EventRuns.run (lifeStep (.asStored _) (some ["localhost"])) restarting
    thirdStart).isSome = true := by decide +kernel

theorem thirdStart_waits : Waits 2
    ((EventRuns.run (lifeStep (.asStored _) (some ["localhost"])) restarting thirdStart).get
      thirdStart_isSome) :=
  waits_while_serving run_startAndRestart restarting_serves thirdStart_spares (Option.some_get _).symm
    (by decide) (by
      have hnone : restarting.life 2 = none := by decide +kernel
      intro pc hpc
      rw [hnone] at hpc
      cases hpc)

end Auth8.Jetty
