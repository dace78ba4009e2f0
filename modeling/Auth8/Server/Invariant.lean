import Auth8.Server.Machine

/-! # The registry invariant of the server

What relates the request map to the calls: every call works on the one singleton, ids are drawn once,
and the map holds exactly the ids that have been put. `Effect` says once what an event can do to the
shared registry; the invariant is derived from it. -/
namespace Auth8.Server
open EventRuns Persistent Jaxrs Request
set_option autoImplicit false

/-! ## Reading a position -/

namespace AuthenticatePc

def inside : AuthenticatePc → Option GetInstancePc
  | .getInstance _ p => some p
  | _ => none

/-- The local variable `ls`, once assigned and while it is still used. -/
def ls : AuthenticatePc → Option (Option ℕ)
  | .construct _ ls | .pause _ ls | .startCountdown _ ls | .generate _ ls | .put _ ls _ => some ls
  | _ => none

/-- The id a call has put into the map. -/
def putId : AuthenticatePc → Option String
  | .send _ id | .sending id | .wait id | .readAuthenticated id | .readTimedout id _
  | .respond id _ _ | .answered id _ _ _ | .failed id _ => some id
  | _ => none

/-- The local variable `uniqueRequestId`, once assigned. -/
def id : AuthenticatePc → Option String
  | .put _ _ id => some id
  | p => p.putId

theorem id_of_putId {p : AuthenticatePc} {i : String} (h : p.putId = some i) : p.id = some i := by
  cases p <;> first | exact h | cases h

end AuthenticatePc

namespace WakePc

def inside : WakePc → Option GetInstancePc
  | .getInstance p => some p
  | _ => none

def ls : WakePc → Option (Option ℕ)
  | .get ls => some ls
  | _ => none

/-- The `AuthRequest` the call has found. -/
def target : WakePc → Option ℕ
  | .resume a _ | .returned a _ => some a
  | _ => none

end WakePc

def State.inside (s : State) : Thread → Option GetInstancePc
  | .authenticate c => (s.authenticates c).bind fun th => th.pc.inside
  | .wake w => (s.wakes w).bind fun th => th.pc.inside

def State.ls (s : State) : Thread → Option (Option ℕ)
  | .authenticate c => (s.authenticates c).bind fun th => th.pc.ls
  | .wake w => (s.wakes w).bind fun th => th.pc.ls

def State.idOf (s : State) (c : ℕ) : Option String := (s.authenticates c).bind fun th => th.pc.id

def State.putIdOf (s : State) (c : ℕ) : Option String :=
  (s.authenticates c).bind fun th => th.pc.putId

def State.requestMap (s : State) : RequestMap := s.singleton.requestMap

/-! ## What an event can do to the registry -/

/-- What an `authenticate` event of the call `c` can do, from position `p` to position `q`. -/
inductive Move (c : ℕ) (s s' : State) : AuthenticatePc → AuthenticatePc → Prop where
  /-- nothing shared but the request and its countdown -/
  | own (p q : AuthenticatePc) (hg : s'.singleton = s.singleton) (hu : s'.uuids = s.uuids)
      (hp : s'.pushes = s.pushes) (hin : q.inside = none ∨ q.inside = some .check)
      (hls : q.ls = none ∨ q.ls = p.ls) (hid : q.id = p.id ∨ q.id = none) (hput : q.putId = p.putId)
      (hans : ∀ id a t r, q = .answered id a t r → ∃ device, r = answer device a t) :
      Move c s s' p q
  | getInstance (device : Device) (p : GetInstancePc) (x : GetInstancePc ⊕ Option ℕ)
      (hg : s.singleton.step (.authenticate c) p = some (s'.singleton, x)) (hu : s'.uuids = s.uuids)
      (hp : s'.pushes = s.pushes) :
      Move c s s' (.getInstance device p) (.afterGetInstance device x)
  | generate (device : Device) (ls : Option ℕ) (uuid : UUID) (hnew : uuid ∉ s.uuids)
      (hg : s'.singleton = s.singleton) (hu : s'.uuids = uuid :: s.uuids) (hp : s'.pushes = s.pushes) :
      Move c s s' (.generate device ls) (.put device ls (uniqueRequestId uuid))
  | put (device : Device) (ls : ℕ) (id : String) (hg : s'.singleton = s.singleton.put ls id c)
      (hu : s'.uuids = s.uuids) (hp : s'.pushes = s.pushes) :
      Move c s s' (.put device (some ls) id) (.send device id)
  | send (device : Device) (id : String) (hg : s'.singleton = s.singleton) (hu : s'.uuids = s.uuids)
      (hp : ∀ p ∈ s'.pushes, p ∈ s.pushes ∨ p.requestId = id) :
      Move c s s' (.send device id) (.sending id)

/-- What a `wake` event can do. -/
inductive WakeMove (w : ℕ) (requestId : String) (s s' : State) : WakePc → WakePc → Prop where
  | own (p q : WakePc) (hg : s'.singleton = s.singleton) (hin : q.inside = none) (hls : q.ls = none)
      (ht : q.target = p.target) : WakeMove w requestId s s' p q
  | getInstance (p : GetInstancePc) (x : GetInstancePc ⊕ Option ℕ)
      (hg : s.singleton.step (.wake w) p = some (s'.singleton, x)) :
      WakeMove w requestId s s' (.getInstance p) (.afterGetInstance x)
  | get (ls a : ℕ) (hg : s'.singleton = s.singleton) (ha : s.singleton.get ls requestId = some a) :
      WakeMove w requestId s s' (.get (some ls)) (.resume a (.next .running))

inductive Effect (s s' : State) : Prop where
  | authenticate (c : ℕ) (args : Arguments) (p q : AuthenticatePc)
      (hpc : s.authenticates c = some ⟨args, p⟩ ∨ s.authenticates c = none ∧ p = .lookup)
      (ha : s'.authenticates = Function.update s.authenticates c (some ⟨args, q⟩))
      (hw : s'.wakes = s.wakes) (hm : Move c s s' p q)
  | wakeArrives (w : ℕ) (auth : Bool) (requestId : String) (hn : s.wakes w = none)
      (hw : s'.wakes = Function.update s.wakes w (some ⟨auth, requestId, .getInstance .check⟩))
      (ha : s'.authenticates = s.authenticates) (hg : s'.singleton = s.singleton)
      (hu : s'.uuids = s.uuids) (hp : s'.pushes = s.pushes)
  | wake (w : ℕ) (auth : Bool) (requestId : String) (p q : WakePc)
      (hpc : s.wakes w = some ⟨auth, requestId, p⟩)
      (hw : s'.wakes = Function.update s.wakes w (some ⟨auth, requestId, q⟩))
      (ha : s'.authenticates = s.authenticates) (hu : s'.uuids = s.uuids)
      (hp : s'.pushes = s.pushes) (hm : WakeMove w requestId s s' p q)
  | tick (hg : s'.singleton = s.singleton) (ha : s'.authenticates = s.authenticates)
      (hw : s'.wakes = s.wakes) (hu : s'.uuids = s.uuids) (hp : s'.pushes = s.pushes)

variable {s s' : State}

theorem stepAuthenticate_effect {c : ℕ} {args : Arguments} {p : AuthenticatePc}
    (hc : s.authenticates c = some ⟨args, p⟩) (h : stepAuthenticate s c args p = some s') :
    Effect s s' := by
  cases p with
  | getInstance device p =>
    obtain ⟨⟨g, x⟩, hg, rfl⟩ := Option.map_eq_some_iff.mp h
    exact .authenticate c args _ _ (.inl hc) rfl rfl (.getInstance device p x hg rfl rfl)
  | put device ls id =>
    cases ls with
    | none =>
      cases h
      exact .authenticate c args _ _ (.inl hc) rfl rfl
        (.own _ _ rfl rfl rfl (.inl rfl) (.inl rfl) (.inr rfl) rfl nofun)
    | some ls =>
      cases h
      exact .authenticate c args _ _ (.inl hc) rfl rfl (.put device ls id rfl rfl rfl)
  | wait id =>
    cases h
    refine .authenticate c args _ _ (.inl hc) rfl rfl (.own _ _ rfl rfl rfl ?_ ?_ ?_ ?_ ?_) <;>
      split <;> simp [AuthenticatePc.inside, AuthenticatePc.ls, AuthenticatePc.id,
        AuthenticatePc.putId]
  | construct device ls | pause device ls | startCountdown device ls | readAuthenticated id
  | readTimedout id a =>
    cases h
    exact .authenticate c args _ _ (.inl hc) rfl rfl
      (.own _ _ rfl rfl rfl (.inl rfl) (by simp [AuthenticatePc.ls]) (.inl rfl) rfl nofun)
  | respond id a t =>
    cases h
    refine .authenticate c args _ _ (.inl hc) rfl rfl
      (.own _ _ rfl rfl rfl (.inl rfl) (.inl rfl) (.inl rfl) rfl ?_)
    intro id' a' t' r hr
    cases hr
    exact ⟨_, rfl⟩
  | _ => cases h

theorem stepWake_effect {w : ℕ} {auth : Bool} {requestId : String} {p : WakePc}
    (hc : s.wakes w = some ⟨auth, requestId, p⟩) (h : stepWake s w auth requestId p = some s') :
    Effect s s' := by
  cases p with
  | getInstance p =>
    obtain ⟨⟨g, x⟩, hg, rfl⟩ := Option.map_eq_some_iff.mp h
    exact .wake w auth requestId _ _ hc rfl rfl rfl rfl (.getInstance p x hg)
  | get ls =>
    cases ls with
    | none =>
      cases h
      exact .wake w auth requestId _ _ hc rfl rfl rfl rfl (.own _ _ rfl rfl rfl rfl)
    | some ls =>
      cases hl : s.singleton.get ls requestId with
      | none =>
        simp only [stepWake, Option.bind_some, hl] at h
        cases h
        exact .wake w auth requestId _ _ hc rfl rfl rfl rfl
          (.own _ _ rfl rfl rfl rfl)
      | some a =>
        simp only [stepWake, Option.bind_some, hl] at h
        cases h
        exact .wake w auth requestId _ _ hc rfl rfl rfl rfl (.get ls a rfl hl)
  | resume a p =>
    cases p <;> cases h <;>
      exact .wake w auth requestId _ _ hc rfl rfl rfl rfl (.own _ _ rfl rfl rfl rfl)
  | _ => cases h

theorem stepCountdown_effect {c : ℕ} {p : CountdownPc} (h : stepCountdown s c p = some s') :
    Effect s s' := by
  cases p with
  | notStarted => cases h
  | loop i =>
    cases h
    exact .tick rfl rfl rfl rfl rfl
  | resume p =>
    cases p <;> cases h
    exact .tick rfl rfl rfl rfl rfl

theorem step_effect {e : Event} (h : step s e = some s') : Effect s s' := by
  cases e with
  | authenticate c args =>
    obtain ⟨hc, rfl⟩ := whenever_eq_some.mp h
    exact .authenticate c args .lookup _ (.inr ⟨hc, rfl⟩) rfl rfl
      (.own _ _ rfl rfl rfl (.inl rfl) (.inl rfl) (.inl rfl) rfl nofun)
  | run c =>
    obtain ⟨⟨args, p⟩, hc, h⟩ := Option.bind_eq_some_iff.mp h
    exact stepAuthenticate_effect hc h
  | runWake w =>
    obtain ⟨⟨auth, requestId, p⟩, hc, h⟩ := Option.bind_eq_some_iff.mp h
    exact stepWake_effect hc h
  | wake w auth requestId =>
    obtain ⟨hw, rfl⟩ := whenever_eq_some.mp h
    exact .wakeArrives w auth requestId hw rfl rfl rfl rfl rfl
  | tick c => exact stepCountdown_effect h
  | lookup c result =>
    simp only [step] at h
    split at h
    · next args hc =>
      cases h
      refine .authenticate c args _ _ (.inl hc) rfl rfl (.own _ _ rfl rfl rfl ?_ ?_ ?_ ?_ ?_) <;>
        cases result <;> simp [AuthenticatePc.inside, AuthenticatePc.ls, AuthenticatePc.id,
          AuthenticatePc.putId]
    · cases h
  | generate c uuid =>
    simp only [step] at h
    split at h
    · next args device ls hc =>
      obtain ⟨hn, rfl⟩ := whenever_eq_some.mp h
      exact .authenticate c args _ _ (.inl hc) rfl rfl (.generate device ls uuid hn rfl rfl rfl)
    · cases h
  | send c published =>
    simp only [step] at h
    split at h
    · next args device id hc =>
      cases h
      refine .authenticate c args _ _ (.inl hc) rfl rfl (.send device id rfl rfl ?_)
      intro p hp
      cases published with
      | false => exact .inl hp
      | true =>
        rcases List.mem_cons.mp hp with rfl | hp
        · exact .inr rfl
        · exact .inl hp
    · cases h
  | sendReturn c exit =>
    simp only [step] at h
    split at h
    · next args id hc =>
      cases h
      refine .authenticate c args _ _ (.inl hc) rfl rfl (.own _ _ rfl rfl rfl ?_ ?_ ?_ ?_ ?_) <;>
        cases exit <;> simp [AuthenticatePc.inside, AuthenticatePc.ls, AuthenticatePc.id,
          AuthenticatePc.putId]
    · cases h

/-! ## The invariant -/

structure Inv (s : State) : Prop where
  settled : ∀ t p, s.inside t = some p → s.singleton.Settled t p
  holds : ∀ t ls, s.ls t = some ls → ls = s.singleton.inst ∧ s.singleton.inst ≠ none
  drawn : ∀ c id, s.idOf c = some id → ∃ u ∈ s.uuids, id = uniqueRequestId u
  distinct : ∀ c d id, s.idOf c = some id → s.idOf d = some id → c = d
  registered : ∀ id c, s.requestMap.lookup id = some c ↔ s.putIdOf c = some id
  target : ∀ w th a, s.wakes w = some th → th.pc.target = some a →
    s.requestMap.lookup th.requestId = some a
  pushed : ∀ p ∈ s.pushes, ∃ c, s.putIdOf c = some p.requestId
  answered : ∀ c args id a t r, s.authenticates c = some ⟨args, .answered id a t r⟩ →
    ∃ device, r = answer device a t

theorem init_inv : Inv State.init := by
  constructor
  · rintro (c | w) p h <;> cases h
  · rintro (c | w) p h <;> cases h
  · intro c id h
    cases h
  · intro c d id h
    cases h
  · intro id c
    exact ⟨nofun, nofun⟩
  · intro w th a h
    cases h
  · intro p hp
    cases hp
  · intro c args id a t r h
    cases h

theorem read_self {α : Type} {c : ℕ} {args : Arguments} {p : AuthenticatePc}
    (hpc : s.authenticates c = some ⟨args, p⟩ ∨ s.authenticates c = none ∧ p = .lookup)
    (f : AuthenticatePc → Option α) (hf : f .lookup = none) :
    ((s.authenticates c).bind fun th => f th.pc) = f p := by
  rcases hpc with hc | ⟨hc, rfl⟩
  · rw [hc]
    rfl
  · rw [hc, hf]
    rfl

theorem read_update {α : Type} {c : ℕ} {args : Arguments} {q : AuthenticatePc}
    (ha : s'.authenticates = Function.update s.authenticates c (some ⟨args, q⟩))
    (f : AuthenticatePc → Option α) (d : ℕ) :
    ((s'.authenticates d).bind fun th => f th.pc) =
      if d = c then f q else (s.authenticates d).bind fun th => f th.pc := by
  rw [ha]
  by_cases hd : d = c
  · simp [hd]
  · simp [hd]

theorem inside_authenticate {c : ℕ} {args : Arguments} {q : AuthenticatePc}
    (ha : s'.authenticates = Function.update s.authenticates c (some ⟨args, q⟩))
    (hw : s'.wakes = s.wakes) (t : Thread) :
    s'.inside t = if t = .authenticate c then q.inside else s.inside t := by
  cases t with
  | authenticate d => simpa [State.inside] using read_update ha AuthenticatePc.inside d
  | wake w => simp [State.inside, hw]

theorem ls_authenticate {c : ℕ} {args : Arguments} {q : AuthenticatePc}
    (ha : s'.authenticates = Function.update s.authenticates c (some ⟨args, q⟩))
    (hw : s'.wakes = s.wakes) (t : Thread) :
    s'.ls t = if t = .authenticate c then q.ls else s.ls t := by
  cases t with
  | authenticate d => simpa [State.ls] using read_update ha AuthenticatePc.ls d
  | wake w => simp [State.ls, hw]

theorem inside_wake {w : ℕ} {th : Wake} (hw : s'.wakes = Function.update s.wakes w (some th))
    (ha : s'.authenticates = s.authenticates) (t : Thread) :
    s'.inside t = if t = .wake w then th.pc.inside else s.inside t := by
  cases t with
  | authenticate d => simp [State.inside, ha]
  | wake v =>
    by_cases hv : v = w
    · simp [State.inside, hw, hv]
    · simp [State.inside, hw, hv]

theorem ls_wake {w : ℕ} {th : Wake} (hw : s'.wakes = Function.update s.wakes w (some th))
    (ha : s'.authenticates = s.authenticates) (t : Thread) :
    s'.ls t = if t = .wake w then th.pc.ls else s.ls t := by
  cases t with
  | authenticate d => simp [State.ls, ha]
  | wake v =>
    by_cases hv : v = w
    · simp [State.ls, hw, hv]
    · simp [State.ls, hw, hv]

/-! ## Preservation -/

/-- What a thread that leaves the class alone has to show. -/
theorem Inv.settled_of_eq (h : Inv s) (hg : s'.singleton = s.singleton) {t : Thread}
    {q : Option GetInstancePc} (hq : q = none ∨ q = some .check)
    (hin : ∀ u, s'.inside u = if u = t then q else s.inside u) :
    ∀ u p, s'.inside u = some p → s'.singleton.Settled u p := by
  intro u p hp
  rw [hin] at hp
  rw [hg]
  split at hp
  · rcases hq with rfl | rfl
    · cases hp
    · cases hp
      exact LazySingleton.settled_check _ _
  · exact h.settled u p hp

theorem Inv.holds_of_eq (h : Inv s) (hi : s'.singleton.inst = s.singleton.inst) {t : Thread}
    {r : Option (Option ℕ)} (hr : r = none ∨ r = s.ls t)
    (hls : ∀ u, s'.ls u = if u = t then r else s.ls u) :
    ∀ u ls, s'.ls u = some ls → ls = s'.singleton.inst ∧ s'.singleton.inst ≠ none := by
  intro u ls hu
  rw [hls] at hu
  rw [hi]
  split at hu
  · rcases hr with rfl | rfl
    · cases hu
    · exact h.holds t ls hu
  · exact h.holds u ls hu

/-- What a thread that steps inside `getInstance` keeps. -/
theorem Inv.settled_of_step (h : Inv s) {t : Thread} {p : GetInstancePc}
    {x : GetInstancePc ⊕ Option ℕ} (hp : s.inside t = some p)
    (hstep : s.singleton.step t p = some (s'.singleton, x))
    (hin : ∀ u, s'.inside u = if u = t then x.getLeft? else s.inside u) :
    ∀ u p, s'.inside u = some p → s'.singleton.Settled u p := by
  intro u q hq
  rw [hin] at hq
  split at hq
  · next hu =>
    cases x with
    | inl x =>
      cases hq
      rw [hu]
      exact LazySingleton.step_settled hstep (h.settled t p hp)
    | inr r => cases hq
  · next hu => exact LazySingleton.step_settled_other hstep (h.settled t p hp) hu (h.settled u q hq)

/-- The reference a thread gets from `getInstance` is the instance. -/
theorem Inv.holds_of_step (h : Inv s) {t : Thread} {p : GetInstancePc}
    {x : GetInstancePc ⊕ Option ℕ} (hp : s.inside t = some p)
    (hstep : s.singleton.step t p = some (s'.singleton, x))
    (hls : ∀ u, s'.ls u = if u = t then x.getRight? else s.ls u) :
    ∀ u ls, s'.ls u = some ls → ls = s'.singleton.inst ∧ s'.singleton.inst ≠ none := by
  intro u ls hu
  rw [hls] at hu
  split at hu
  · cases x with
    | inl x => cases hu
    | inr r =>
      cases hu
      exact LazySingleton.step_returned hstep (h.settled t p hp)
  · obtain ⟨hi, hn⟩ := h.holds u ls hu
    rw [LazySingleton.step_inst_of_ne_none hstep (h.settled t p hp) hn]
    exact ⟨hi, hn⟩

/-- An event that neither draws nor puts an id. -/
theorem Inv.keep (h : Inv s)
    (hsettled : ∀ t p, s'.inside t = some p → s'.singleton.Settled t p)
    (hholds : ∀ t ls, s'.ls t = some ls → ls = s'.singleton.inst ∧ s'.singleton.inst ≠ none)
    (hu : s'.uuids = s.uuids) (hmap : s'.requestMap = s.requestMap)
    (hid : ∀ d i, s'.idOf d = some i → s.idOf d = some i)
    (hput : ∀ d, s'.putIdOf d = s.putIdOf d)
    (htarget : ∀ w th a, s'.wakes w = some th → th.pc.target = some a →
      s.requestMap.lookup th.requestId = some a)
    (hp : ∀ m ∈ s'.pushes, m ∈ s.pushes ∨ ∃ d, s.putIdOf d = some m.requestId)
    (hans : ∀ c args id a t r, s'.authenticates c = some ⟨args, .answered id a t r⟩ →
      ∃ device, r = answer device a t) : Inv s' := by
  refine ⟨hsettled, hholds, ?_, ?_, ?_, ?_, ?_, hans⟩
  · intro d i hd
    rw [hu]
    exact h.drawn d i (hid d i hd)
  · intro d e i hd he
    exact h.distinct d e i (hid d i hd) (hid e i he)
  · intro i d
    rw [hmap, hput]
    exact h.registered i d
  · intro w th a hth hta
    rw [hmap]
    exact htarget w th a hth hta
  · intro m hm
    have hd : ∃ d, s.putIdOf d = some m.requestId := by
      rcases hp m hm with hm | hm
      · exact h.pushed m hm
      · exact hm
    obtain ⟨d, hd⟩ := hd
    exact ⟨d, by rw [hput, hd]⟩

section Authenticate
variable {c : ℕ} {args : Arguments} {p q : AuthenticatePc}

/-- An `authenticate` event as seen by the invariant: the position of `c` changes from `p` to `q`. -/
structure At (s s' : State) (c : ℕ) (p q : AuthenticatePc) : Prop where
  inside : ∀ t, s'.inside t = if t = .authenticate c then q.inside else s.inside t
  ls : ∀ t, s'.ls t = if t = .authenticate c then q.ls else s.ls t
  id : ∀ d, s'.idOf d = if d = c then q.id else s.idOf d
  putId : ∀ d, s'.putIdOf d = if d = c then q.putId else s.putIdOf d
  wakes : s'.wakes = s.wakes
  authenticates : ∃ args, s'.authenticates = Function.update s.authenticates c (some ⟨args, q⟩)
  inside_self : s.inside (.authenticate c) = p.inside
  ls_self : s.ls (.authenticate c) = p.ls
  id_self : s.idOf c = p.id
  putId_self : s.putIdOf c = p.putId

theorem at_of_update
    (hpc : s.authenticates c = some ⟨args, p⟩ ∨ s.authenticates c = none ∧ p = .lookup)
    (ha : s'.authenticates = Function.update s.authenticates c (some ⟨args, q⟩))
    (hw : s'.wakes = s.wakes) : At s s' c p q where
  inside := inside_authenticate ha hw
  ls := ls_authenticate ha hw
  id := read_update ha _
  putId := read_update ha _
  wakes := hw
  authenticates := ⟨args, ha⟩
  inside_self := read_self hpc _ rfl
  ls_self := read_self hpc _ rfl
  id_self := read_self hpc _ rfl
  putId_self := read_self hpc _ rfl

theorem At.putId_eq (h : At s s' c p q) (hq : q.putId = p.putId) (d : ℕ) :
    s'.putIdOf d = s.putIdOf d := by
  rw [h.putId]
  split
  · next hd => rw [hd, hq, h.putId_self]
  · rfl

theorem At.id_of (h : At s s' c p q) (hq : q.id = p.id ∨ q.id = none) (d : ℕ) (i : String)
    (hi : s'.idOf d = some i) : s.idOf d = some i := by
  rw [h.id] at hi
  split at hi
  · next hd =>
    rcases hq with hq | hq <;> rw [hq] at hi
    · rw [hd, h.id_self, hi]
    · cases hi
  · exact hi

theorem At.target (h : At s s' c p q) (hs : Inv s) (w : ℕ) (th : Wake) (a : ℕ)
    (hth : s'.wakes w = some th) (hta : th.pc.target = some a) :
    s.requestMap.lookup th.requestId = some a :=
  hs.target w th a (h.wakes ▸ hth) hta

theorem At.answered (h : At s s' c p q) (hs : Inv s)
    (hq : ∀ id a t r, q = .answered id a t r → ∃ device, r = answer device a t) (d : ℕ)
    (args : Arguments) (id : String) (a t : Bool) (r : Option Response)
    (hd : s'.authenticates d = some ⟨args, .answered id a t r⟩) : ∃ device, r = answer device a t := by
  obtain ⟨args', ha⟩ := h.authenticates
  rw [ha] at hd
  by_cases hdc : d = c
  · rw [hdc, Function.update_self] at hd
    cases hd
    exact hq id a t r rfl
  · rw [Function.update_of_ne hdc] at hd
    exact hs.answered d args id a t r hd

theorem Inv.settled_of_put {device : Device} {ls : ℕ} {id : String} (hs : Inv s)
    (h : At s s' c p (.send device id)) (hg : s'.singleton = s.singleton.put ls id c) :
    ∀ t p, s'.inside t = some p → s'.singleton.Settled t p := by
  intro t p ht
  rw [h.inside] at ht
  rw [hg]
  split at ht
  · cases ht
  · exact (hs.settled t p ht).put _ _ _

theorem generate_inv {device : Device} {ls : Option ℕ} {uuid : UUID} {id : String} (hs : Inv s)
    (h : At s s' c (.generate device ls) (.put device ls id)) (hid : id = uniqueRequestId uuid)
    (hnew : uuid ∉ s.uuids) (hg : s'.singleton = s.singleton) (hu : s'.uuids = uuid :: s.uuids)
    (hp : s'.pushes = s.pushes) : Inv s' := by
  have hmap : s'.requestMap = s.requestMap := by rw [State.requestMap, hg, State.requestMap]
  -- no call has the new id: its UUID has not been drawn
  have hfresh : ∀ d, s.idOf d ≠ some id := by
    intro d hd
    obtain ⟨u, hmem, heq⟩ := hs.drawn d _ hd
    exact hnew (uniqueRequestId_injective (hid.symm.trans heq) ▸ hmem)
  refine ⟨hs.settled_of_eq hg (.inl rfl) h.inside,
    hs.holds_of_eq (by rw [hg]) (.inr h.ls_self.symm) h.ls, ?_, ?_, ?_, ?_, ?_, h.answered hs nofun⟩
  · intro d i hi
    rw [hu]
    rw [h.id] at hi
    split at hi
    · cases hi
      exact ⟨uuid, List.mem_cons_self, hid⟩
    · obtain ⟨u, hmem, heq⟩ := hs.drawn d i hi
      exact ⟨u, List.mem_cons_of_mem _ hmem, heq⟩
  · intro d e i hd he
    rw [h.id] at hd he
    split at hd <;> split at he
    · next h1 h2 => rw [h1, h2]
    · cases hd
      exact absurd he (hfresh e)
    · cases he
      exact absurd hd (hfresh d)
    · exact hs.distinct d e i hd he
  · intro i d
    rw [hmap, h.putId_eq rfl]
    exact hs.registered i d
  · intro w th a hth hta
    rw [hmap]
    exact h.target hs w th a hth hta
  · intro m hm
    rw [hp] at hm
    obtain ⟨d, hd⟩ := hs.pushed m hm
    exact ⟨d, by rw [h.putId_eq rfl, hd]⟩

theorem put_inv {device : Device} {ls : ℕ} {id : String} (hs : Inv s)
    (h : At s s' c (.put device (some ls) id) (.send device id))
    (hg : s'.singleton = s.singleton.put ls id c) (hu : s'.uuids = s.uuids)
    (hp : s'.pushes = s.pushes) : Inv s' := by
  obtain ⟨hinst, _⟩ := hs.holds (.authenticate c) (some ls) h.ls_self
  have hmap : s'.requestMap = s.requestMap.insert id c := by
    rw [State.requestMap, hg, LazySingleton.requestMap_put hinst.symm, State.requestMap]
  -- the id is nobody else's, so it is not in the map yet
  have hputc : s.putIdOf c = none := h.putId_self
  have hne : ∀ d, s.putIdOf d ≠ some id := by
    intro d hd
    obtain ⟨th, hth, hpt⟩ := Option.bind_eq_some_iff.mp hd
    have hid : s.idOf d = some id :=
      Option.bind_eq_some_iff.mpr ⟨th, hth, AuthenticatePc.id_of_putId hpt⟩
    have hdc : d = c := hs.distinct d c id hid h.id_self
    rw [hdc, hputc] at hd
    cases hd
  have hkeep : ∀ i a, s.requestMap.lookup i = some a → s'.requestMap.lookup i = some a := by
    intro i a hi
    have hie : i ≠ id := by
      rintro rfl
      exact hne a ((hs.registered i a).mp hi)
    rw [hmap, AList.lookup_insert_ne hie, hi]
  refine ⟨hs.settled_of_put h hg, hs.holds_of_eq (by rw [hg]; rfl) (.inl rfl) h.ls,
    ?_, ?_, ?_, ?_, ?_, h.answered hs nofun⟩
  · intro d i hi
    rw [hu]
    exact hs.drawn d i (h.id_of (.inl rfl) d i hi)
  · intro d e i hd he
    exact hs.distinct d e i (h.id_of (.inl rfl) d i hd) (h.id_of (.inl rfl) e i he)
  · intro i d
    rw [hmap, h.putId]
    by_cases hi : i = id
    · rw [hi, AList.lookup_insert]
      by_cases hd : d = c
      · simp [hd, AuthenticatePc.putId]
      · simp [hd, Ne.symm hd, hne d]
    · rw [AList.lookup_insert_ne hi, hs.registered]
      by_cases hd : d = c
      · simp [hd, hputc, AuthenticatePc.putId, Ne.symm hi]
      · simp [hd]
  · intro w th a hth hta
    exact hkeep _ a (h.target hs w th a hth hta)
  · intro m hm
    rw [hp] at hm
    obtain ⟨d, hd⟩ := hs.pushed m hm
    have hdc : d ≠ c := by
      rintro rfl
      rw [hputc] at hd
      cases hd
    exact ⟨d, by rw [h.putId, if_neg hdc, hd]⟩

theorem move_inv (hs : Inv s) (h : At s s' c p q) (hm : Move c s s' p q) : Inv s' := by
  cases hm with
  | own p q hg hu hp hqi hql hqd hqp hans =>
    refine hs.keep (hs.settled_of_eq hg hqi h.inside)
      (hs.holds_of_eq (by rw [hg]) (by rwa [h.ls_self]) h.ls) hu
      (by rw [State.requestMap, hg, State.requestMap]) (h.id_of hqd) (h.putId_eq hqp) (h.target hs) ?_
      (h.answered hs hans)
    intro m hm
    exact .inl (hp ▸ hm)
  | getInstance device p x hstep hu hp =>
    have hmap := LazySingleton.step_requestMap hstep (hs.settled _ p h.inside_self)
    refine hs.keep (hs.settled_of_step h.inside_self hstep ?_)
      (hs.holds_of_step h.inside_self hstep ?_) hu hmap (h.id_of ?_) (h.putId_eq ?_) (h.target hs) ?_
      (h.answered hs ?_)
    · intro t
      rw [h.inside]
      cases x <;> rfl
    · intro t
      rw [h.ls]
      cases x <;> rfl
    · cases x <;> exact .inl rfl
    · cases x <;> rfl
    · intro m hm
      exact .inl (hp ▸ hm)
    · cases x <;> nofun
  | generate device ls uuid hnew hg hu hp => exact generate_inv hs h rfl hnew hg hu hp
  | put device ls id hg hu hp => exact put_inv hs h hg hu hp
  | send device id hg hu hp =>
    refine hs.keep (hs.settled_of_eq hg (.inl rfl) h.inside)
      (hs.holds_of_eq (by rw [hg]) (.inl rfl) h.ls) hu
      (by rw [State.requestMap, hg, State.requestMap]) (h.id_of (.inl rfl)) (h.putId_eq rfl)
      (h.target hs) ?_ (h.answered hs nofun)
    intro m hm
    rcases hp m hm with hm | hm
    · exact .inl hm
    · exact .inr ⟨c, by rw [h.putId_self, hm]; rfl⟩

end Authenticate

section Wake
variable {w : ℕ} {auth : Bool} {requestId : String} {p q : WakePc}

/-- An event of a `wake` call that finds what it has to find. -/
theorem Inv.keep_wake (h : Inv s)
    (hw : s'.wakes = Function.update s.wakes w (some ⟨auth, requestId, q⟩))
    (ha : s'.authenticates = s.authenticates) (hu : s'.uuids = s.uuids) (hp : s'.pushes = s.pushes)
    (hmap : s'.requestMap = s.requestMap)
    (hsettled : ∀ t p, s'.inside t = some p → s'.singleton.Settled t p)
    (hholds : ∀ t ls, s'.ls t = some ls → ls = s'.singleton.inst ∧ s'.singleton.inst ≠ none)
    (hq : ∀ a, q.target = some a → s.requestMap.lookup requestId = some a) : Inv s' := by
  refine h.keep hsettled hholds hu hmap ?_ ?_ ?_ ?_ (by rw [ha]; exact h.answered)
  · intro d i hi
    rwa [State.idOf, ha] at hi
  · intro d
    rw [State.putIdOf, ha, State.putIdOf]
  · intro v th a hth hta
    rw [hw] at hth
    by_cases hv : v = w
    · rw [hv, Function.update_self] at hth
      cases hth
      exact hq a hta
    · rw [Function.update_of_ne hv] at hth
      exact h.target v th a hth hta
  · intro m hm
    exact .inl (hp ▸ hm)

theorem wakeMove_inv (hs : Inv s) (hpc : s.wakes w = some ⟨auth, requestId, p⟩)
    (hw : s'.wakes = Function.update s.wakes w (some ⟨auth, requestId, q⟩))
    (ha : s'.authenticates = s.authenticates) (hu : s'.uuids = s.uuids) (hp : s'.pushes = s.pushes)
    (hm : WakeMove w requestId s s' p q) : Inv s' := by
  have hin := inside_wake hw ha
  have hls := ls_wake hw ha
  have hinw : s.inside (.wake w) = p.inside := by rw [State.inside, hpc]; rfl
  have hlsw : s.ls (.wake w) = p.ls := by rw [State.ls, hpc]; rfl
  cases hm with
  | own p q hg hqi hql ht =>
    refine hs.keep_wake hw ha hu hp (by rw [State.requestMap, hg, State.requestMap])
      (hs.settled_of_eq hg (.inl hqi) hin) (hs.holds_of_eq (by rw [hg]) (.inl hql) hls) ?_
    intro a ht'
    exact hs.target w ⟨auth, requestId, p⟩ a hpc (by rw [← ht, ht'])
  | getInstance p x hstep =>
    have hmap := LazySingleton.step_requestMap hstep (hs.settled _ p hinw)
    refine hs.keep_wake hw ha hu hp hmap (hs.settled_of_step hinw hstep ?_)
      (hs.holds_of_step hinw hstep ?_) ?_
    · intro t
      rw [hin]
      cases x <;> rfl
    · intro t
      rw [hls]
      cases x <;> rfl
    · intro a ht
      cases x <;> cases ht
  | get ls a hg hget =>
    obtain ⟨hinst, _⟩ := hs.holds (.wake w) (some ls) hlsw
    refine hs.keep_wake hw ha hu hp (by rw [State.requestMap, hg, State.requestMap])
      (hs.settled_of_eq hg (.inl rfl) hin) (hs.holds_of_eq (by rw [hg]) (.inl rfl) hls) ?_
    intro b hb
    cases hb
    rw [State.requestMap, ← LazySingleton.get_inst hinst.symm, hget]

end Wake

theorem effect_inv (hs : Inv s) (h : Effect s s') : Inv s' := by
  cases h with
  | authenticate c args p q hpc ha hw hm => exact move_inv hs (at_of_update hpc ha hw) hm
  | wakeArrives w auth requestId hn hw ha hg hu hp =>
    exact hs.keep_wake hw ha hu hp (by rw [State.requestMap, hg, State.requestMap])
      (hs.settled_of_eq hg (.inr rfl) (inside_wake hw ha))
      (hs.holds_of_eq (by rw [hg]) (.inl rfl) (ls_wake hw ha)) nofun
  | wake w auth requestId p q hpc hw ha hu hp hm => exact wakeMove_inv hs hpc hw ha hu hp hm
  | tick hg ha hw hu hp =>
    have hin : ∀ t, s'.inside t = s.inside t := by
      intro t
      cases t <;> simp [State.inside, ha, hw]
    have hls : ∀ t, s'.ls t = s.ls t := by
      intro t
      cases t <;> simp [State.ls, ha, hw]
    refine hs.keep ?_ ?_ hu (by rw [State.requestMap, hg, State.requestMap]) ?_ ?_ ?_ ?_
      (by rw [ha]; exact hs.answered)
    · intro t p ht
      rw [hg]
      exact hs.settled t p (hin t ▸ ht)
    · intro t r ht
      rw [hg]
      exact hs.holds t r (hls t ▸ ht)
    · intro d i hi
      rwa [State.idOf, ha] at hi
    · intro d
      rw [State.putIdOf, ha, State.putIdOf]
    · intro w th a hth hta
      exact hs.target w th a (hw ▸ hth) hta
    · intro m hm
      exact .inl (hp ▸ hm)

theorem reachable_inv (h : Reachable step .init s) : Inv s :=
  h.induct init_inv fun _ _ _ _ hs he => effect_inv hs (step_effect he)

end Auth8.Server
