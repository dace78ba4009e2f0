import Auth8.Jaxrs.V1Settings

/-! # Failed commits

Requests one after the other on the shared context, any of whose commits may throw. The context keeps what
a failed commit would have written, so the next commit that succeeds writes it too. Beside the state, an
audit keeps the table the successful commits alone would have produced: the two agree exactly while every
commit that succeeds repeats what has failed before it. -/
namespace Auth8.Credentials
open EventRuns KeyedTable Persistent Jaxrs Server
set_option autoImplicit false

/-- What a request commits for itself. -/
inductive Change where
  | insert (user : User)
  | delete (row : ℕ)
  deriving DecidableEq, Repr

namespace Change

def apply (t : UserTable) : Change → UserTable
  | .insert user => t.insert user
  | .delete row => t.delete row

def user : Change → Option User
  | .insert user => some user
  | .delete _ => none

def row : Change → Option ℕ
  | .insert _ => none
  | .delete row => some row

end Change

def change : SettingsPc → Option Change
  | .commitUser u v => some (.insert (newUser u v))
  | .commitDelete row _ => some (.delete row)
  | _ => none

/-- The state of the class, the last request, the initial table with the changes of the requests whose
commits have succeeded, and the changes whose commits have failed since the last one that succeeded. -/
structure AuditState where
  settings : SettingsState
  last : Option ℕ
  own : UserTable
  failed : List Change

namespace AuditState

def init (t : UserTable) : AuditState := ⟨.init t, none, t, []⟩

def active (a : AuditState) : Option (ℕ × SettingsPc) :=
  a.last.bind fun i => (a.settings.calls i).map fun pc => (i, pc)

end AuditState

/-- A step of the class in which a request arrives only when the last one has ended. -/
def auditStep (order : UserOrder) (a : AuditState) (e : SettingsEvent) : Option AuditState :=
  (settingsStep order a.settings e).bind fun s =>
    match e with
    | .arrive i _ =>
      whenever (∀ p ∈ a.active, p.2.isEnded = true) { a with settings := s, last := some i }
    | .run _ => some { a with settings := s }
    | .commit i ok =>
      ((a.settings.calls i).bind change).map fun c =>
        if ok then { a with settings := s, own := c.apply a.own, failed := [] }
        else { a with settings := s, failed := a.failed ++ [c] }

/-- A commit that succeeds is the deletion that all commits since the last success have failed at; after
the failure of another change, none succeeds. -/
def Repeats (a : AuditState) : SettingsEvent → Prop
  | .commit i true =>
    ∀ pc, a.settings.calls i = some pc → ∀ c, change pc = some c →
      ∀ f ∈ a.failed, f = c ∧ c.user = none
  | _ => True

variable {order : UserOrder} {a a' : AuditState} {e : SettingsEvent} {i : ℕ} {pc q : SettingsPc}
  {c f : Change}

/-! ## What the context holds -/

def LeftOver (s : SettingsState) (left : List (ℕ × User)) : Prop :=
  ∀ p ∈ left, ∃ pc, s.calls p.1 = some pc ∧ pc.isEnded = true

/-- The context holds what has failed and what the active request has pending. -/
structure Holds (s : SettingsState) (failed : List Change) (object : Option (ℕ × User))
    (deleting : Option ℕ) : Prop where
  unmodified : s.context.updates = []
  inserts : ∃ left, s.context.inserts = left ++ object.toList ∧
    left.map Prod.snd = failed.filterMap Change.user ∧ LeftOver s left
  deletes : ∀ row, row ∈ s.context.deletes ↔ .delete row ∈ failed ∨ deleting = some row
  stored : ∀ row ∈ s.context.deletes, ∃ user, (row, user) ∈ s.table.rows

def objectOf (i : ℕ) (pc : SettingsPc) : Option (ℕ × User) := pc.object.map fun user => (i, user)

def FoundIn (s : SettingsState) (pc : SettingsPc) : Prop :=
  ∀ row, pc.found = some row → ∃ user, (row, user) ∈ s.table.rows

structure Audited (a : AuditState) : Prop where
  nextId : a.settings.table.nextId = a.own.nextId
  quiet : ∀ i pc, a.settings.calls i = some pc → a.last ≠ some i → pc.isEnded = true
  holds : Holds a.settings a.failed (a.active.bind fun p => objectOf p.1 p.2)
    (a.active.bind fun p => p.2.deleting)
  found : ∀ p ∈ a.active, FoundIn a.settings p.2

theorem audited_init (t : UserTable) : Audited (.init t) := by
  refine ⟨rfl, nofun, ⟨rfl, ⟨[], rfl, rfl, nofun⟩, ?_, nofun⟩, nofun⟩
  intro row
  exact iff_of_false nofun nofun

theorem Audited.active_eq (hA : Audited a) (hi : a.settings.calls i = some pc)
    (hlive : pc.isEnded = false) : a.last = some i ∧ a.active = some (i, pc) := by
  have hlast : a.last = some i := by
    by_contra hne
    rw [hA.quiet i pc hi hne] at hlive
    cases hlive
  refine ⟨hlast, ?_⟩
  rw [AuditState.active, hlast, Option.bind_some, hi, Option.map_some]

theorem Audited.holds_active (hA : Audited a) (hact : a.active = some (i, pc)) :
    Holds a.settings a.failed (objectOf i pc) pc.deleting := by
  have := hA.holds
  rwa [hact] at this

/-- Where all other requests have ended, the one that has moved is the active one. -/
theorem audited_of_active (hlast : a.last = some i) (hi : a.settings.calls i = some pc)
    (hquiet : ∀ j pc, j ≠ i → a.settings.calls j = some pc → pc.isEnded = true)
    (hnext : a.settings.table.nextId = a.own.nextId)
    (hholds : Holds a.settings a.failed (objectOf i pc) pc.deleting) (hfound : FoundIn a.settings pc) :
    Audited a := by
  have hact : a.active = some (i, pc) := by
    rw [AuditState.active, hlast, Option.bind_some, hi, Option.map_some]
  refine ⟨hnext, ?_, ?_, ?_⟩
  · intro j pc' hj hne
    refine hquiet j pc' ?_ hj
    rintro rfl
    exact hne hlast
  · rwa [hact]
  · rw [hact]
    rintro _ ⟨⟩
    exact hfound

variable {s s' : SettingsState} {failed : List Change}

theorem LeftOver.move {left : List (ℕ × User)} (h : LeftOver s left)
    (hi : ∀ pc, s.calls i = some pc → pc.isEnded = false)
    (hs' : s'.calls = Function.update s.calls i (some q)) :
    (∀ p ∈ left, p.1 ≠ i) ∧ LeftOver s' left := by
  have hne : ∀ p ∈ left, p.1 ≠ i := by
    rintro p hp rfl
    obtain ⟨pc, hpc, hend⟩ := h p hp
    rw [hi pc hpc] at hend
    cases hend
  refine ⟨hne, fun p hp => ?_⟩
  obtain ⟨pc, hpc, hend⟩ := h p hp
  exact ⟨pc, by rw [hs', Function.update_of_ne (hne p hp), hpc], hend⟩

theorem live_of_eq (hi : s.calls i = some pc) (hlive : pc.isEnded = false) :
    ∀ pc', s.calls i = some pc' → pc'.isEnded = false := by
  intro pc' hpc'
  rwa [← Option.some.inj (hi.symm.trans hpc')]

/-- An operation keeps what the context holds. -/
theorem Holds.operate {w : UnitOfWork User} (h : Holds s failed (objectOf i pc) pc.deleting)
    (hi : s.calls i = some pc) (hfound : FoundIn s pc) (hop : Operation s.table s.context i pc q w)
    (hs' : s' = { s with context := w, calls := Function.update s.calls i (some q) }) :
    Holds s' failed (objectOf i q) q.deleting := by
  obtain ⟨left, hins, hfailed, hleft⟩ := h.inserts
  obtain ⟨hne, hleft'⟩ :=
    hleft.move (live_of_eq hi hop.live) (congrArg SettingsState.calls hs')
  cases hop with
  | create u v =>
    subst hs'
    refine ⟨h.unmodified, ⟨left, ?_, hfailed, hleft'⟩, h.deletes, h.stored⟩
    calc s.context.inserts ++ [(i, ⟨none, none⟩)]
        = left ++ [] ++ [(i, ⟨none, none⟩)] := by rw [hins]; rfl
      _ = left ++ [(i, ⟨none, none⟩)] := by rw [List.append_nil]
  | write _ _ user f hpc hq hfound' _ =>
    have hobj : (objectOf i pc).toList = [(i, user)] := by rw [objectOf, hpc]; rfl
    have hobj' : (objectOf i q).toList = [(i, f user)] := by rw [objectOf, hq]; rfl
    have hmem : (i, user) ∈ s.context.inserts := by simp [hins, hobj]
    rw [UnitOfWork.modify_of_mem hmem] at hs'
    subst hs'
    refine ⟨h.unmodified, ⟨left, ?_, hfailed, hleft'⟩, ?_, h.stored⟩
    · have hsame : left.map (updateRow i f) = left := by
        conv_rhs => rw [← List.map_id left]
        exact List.map_congr_left fun p hp => if_neg (hne p hp)
      change s.context.inserts.map (updateRow i f) = _
      rw [hins, List.map_append, hsame, hobj, hobj', List.map_singleton, updateRow, if_pos rfl]
    · intro row
      rw [SettingsPc.deleting_of_found hfound', ← SettingsPc.deleting_of_found
        (SettingsPc.found_of_object hpc)]
      exact h.deletes row
  | read _ _ _ hpc hq hdel hdel' _ =>
    subst hs'
    rw [objectOf, hq, hdel', ← hdel]
    rw [objectOf, hpc] at hins
    exact ⟨h.unmodified, ⟨left, hins, hfailed, hleft'⟩, h.deletes, h.stored⟩
  | delete row rest =>
    subst hs'
    refine ⟨h.unmodified, ⟨left, hins, hfailed, hleft'⟩, ?_, ?_⟩
    · intro id
      have hid := h.deletes id
      rw [or_iff_left (by rintro ⟨⟩)] at hid
      rw [UnitOfWork.deleteObject, List.mem_insert_iff, hid, or_comm]
      refine or_congr_right ⟨?_, ?_⟩
      · rintro rfl
        rfl
      · rintro ⟨⟩
        rfl
    · intro id hid
      rcases List.mem_insert_iff.mp hid with rfl | hid
      · exact hfound id rfl
      · exact h.stored id hid

/-! ## A commit -/

theorem change_eq (h : change pc = some c) :
    pc.object = c.user ∧ pc.deleting = c.row ∧ pc.isEnded = false := by
  cases pc <;> cases h <;> exact ⟨rfl, rfl, rfl⟩

theorem Change.eq_delete_iff (c : Change) (row : ℕ) : c.row = some row ↔ c = .delete row := by
  cases c with
  | insert user => exact iff_of_false nofun nofun
  | delete row' => simp [Change.row]

theorem Change.apply_nextId (c : Change) (t : UserTable) :
    (c.apply t).nextId = t.nextId + c.user.toList.length := by
  cases c <;> rfl

theorem Holds.fail (h : Holds s failed (objectOf i pc) pc.deleting) (hi : s.calls i = some pc)
    (hc : change pc = some c)
    (hs' : s' = { s with calls := Function.update s.calls i (some .threw) }) :
    Holds s' (failed ++ [c]) none none := by
  obtain ⟨hobj, hdel, hlive⟩ := change_eq hc
  obtain ⟨left, hins, hfailed, hleft⟩ := h.inserts
  obtain ⟨_, hleft'⟩ := hleft.move (live_of_eq hi hlive) (congrArg SettingsState.calls hs')
  subst hs'
  refine ⟨h.unmodified, ⟨left ++ (objectOf i pc).toList, ?_, ?_, ?_⟩, ?_, h.stored⟩
  · rw [Option.toList_none, List.append_nil]
    exact hins
  · rw [List.map_append, List.filterMap_append, hfailed, objectOf, hobj]
    cases hu : c.user <;> simp [hu]
  · intro p hp
    rcases List.mem_append.mp hp with hp | hp
    · exact hleft' p hp
    · rw [objectOf, Option.mem_toList, Option.map_eq_some_iff] at hp
      obtain ⟨user, _, rfl⟩ := hp
      exact ⟨.threw, Function.update_self .., rfl⟩
  · intro row
    have hrow := h.deletes row
    rw [hdel, Change.eq_delete_iff] at hrow
    rw [or_iff_left (by exact nofun), List.mem_append, List.mem_singleton, eq_comm]
    exact hrow

section
variable {own : UserTable}

theorem Holds.fresh {object : Option (ℕ × User)} {deleting : Option ℕ}
    (h : Holds s failed object deleting) :
    ∀ row ∈ s.context.deletes, row < s.table.nextId := by
  intro row hrow
  obtain ⟨user, hmem⟩ := h.stored row hrow
  exact s.table.fresh _ hmem

/-- A commit that makes its own change only repeats all that has failed. -/
theorem Holds.repeats (h : Holds s failed (objectOf i pc) pc.deleting) (hc : change pc = some c)
    (hnext : s.table.nextId = own.nextId) (hrows : s.table.rows = own.rows)
    (heq : (s.context.commit s.table).rows = (c.apply own).rows) :
    ∀ f ∈ failed, f = c ∧ c.user = none := by
  obtain ⟨hobj, hdel, _⟩ := change_eq hc
  obtain ⟨left, hins, hfailed, _⟩ := h.inserts
  intro f hf
  have hnil : left = [] := by
    by_contra hne
    have hpos := List.length_pos_iff.mpr hne
    have hlen : s.context.inserts.length = left.length + c.user.toList.length := by
      rw [hins, List.length_append, objectOf, hobj, Option.toList_map, List.length_map]
    -- the last new object has a key that the change alone does not reach
    obtain ⟨user, hmem⟩ := UnitOfWork.key_mem_commit h.unmodified h.fresh
      (k := c.user.toList.length) (by omega)
    rw [heq] at hmem
    have hlt := (c.apply own).fresh _ hmem
    rw [Change.apply_nextId] at hlt
    omega
  rw [hnil, List.map_nil, eq_comm, List.filterMap_eq_nil_iff] at hfailed
  cases f with
  | insert user => cases hfailed _ hf
  | delete row =>
    have hrow := (h.deletes row).mpr (.inl hf)
    obtain ⟨user, hmem⟩ := h.stored row hrow
    have hgone : (row, user) ∉ (c.apply own).rows := by
      rw [← heq, UnitOfWork.mem_commit h.unmodified]
      exact fun hin => hin.2 hrow
    rw [hrows] at hmem
    cases c with
    | insert new => exact absurd (mem_insert.mpr (.inl hmem)) hgone
    | delete row' =>
      by_cases hsame : row = row'
      · exact ⟨by rw [hsame], rfl⟩
      · exact absurd (mem_delete.mpr ⟨hmem, hsame⟩) hgone

/-- A commit that repeats all that has failed has nothing else in the context. -/
theorem Holds.only (h : Holds s failed (objectOf i pc) pc.deleting) (hc : change pc = some c)
    (hall : ∀ f ∈ failed, f = c ∧ c.user = none) :
    s.context.inserts = (c.user.map fun user => (i, user)).toList ∧
      ∀ row, row ∈ s.context.deletes ↔ c.row = some row := by
  obtain ⟨hobj, hdel, _⟩ := change_eq hc
  obtain ⟨left, hins, hfailed, _⟩ := h.inserts
  constructor
  · have hnone : failed.filterMap Change.user = [] := by
      rw [List.filterMap_eq_nil_iff]
      intro f hf
      obtain ⟨rfl, hu⟩ := hall f hf
      exact hu
    rw [hnone, List.map_eq_nil_iff] at hfailed
    rw [hins, hfailed, objectOf, hobj]
    rfl
  · intro row
    rw [h.deletes, hdel]
    refine or_iff_right_of_imp fun hf => ?_
    rw [← (hall _ hf).1]
    rfl

theorem Holds.commit_rows (h : Holds s failed (objectOf i pc) pc.deleting) (hc : change pc = some c)
    (hnext : s.table.nextId = own.nextId) (hrows : s.table.rows = own.rows)
    (hall : ∀ f ∈ failed, f = c ∧ c.user = none) :
    (s.context.commit s.table).rows = (c.apply own).rows := by
  obtain ⟨hins, hdeletes⟩ := h.only hc hall
  rw [UnitOfWork.commit, h.unmodified, hins, deleteAll_rows]
  cases c with
  | insert new =>
    have hkeep : ∀ row, row ∉ s.context.deletes := by
      intro row hrow
      cases (hdeletes row).mp hrow
    change (s.table.rows ++ [(s.table.nextId, new)]).filter _ = own.rows ++ [(own.nextId, new)]
    rw [hrows, hnext, List.filter_eq_self]
    exact fun row _ => decide_eq_true (hkeep row.1)
  | delete row =>
    change s.table.rows.filter _ = own.rows.filter _
    rw [hrows]
    refine List.filter_congr fun r _ => ?_
    simp [hdeletes, Change.row, eq_comm]

/-- After a commit that repeats all that has failed, the next keys agree again. -/
theorem Holds.commit_nextId (h : Holds s failed (objectOf i pc) pc.deleting) (hc : change pc = some c)
    (hnext : s.table.nextId = own.nextId) (hall : ∀ f ∈ failed, f = c ∧ c.user = none) :
    (s.context.commit s.table).nextId = (c.apply own).nextId := by
  rw [UnitOfWork.commit_nextId h.unmodified, (h.only hc hall).1, Change.apply_nextId, hnext,
    Option.toList_map, List.length_map]

end

/-! ## Every step -/

theorem Audited.others (hA : Audited a) (hlast : a.last = some i)
    (hs' : s'.calls = Function.update a.settings.calls i (some q)) :
    ∀ j pc, j ≠ i → s'.calls j = some pc → pc.isEnded = true := by
  intro j pc hj hpc
  rw [hs', Function.update_of_ne hj] at hpc
  refine hA.quiet j pc hpc ?_
  rw [hlast]
  rintro ⟨⟩
  exact hj rfl

theorem FoundIn.operate {w : UnitOfWork User} (h : FoundIn s pc)
    (hop : Operation s.table s.context i pc q w) (hs' : s'.table = s.table) : FoundIn s' q := by
  unfold FoundIn
  rw [hs']
  cases hop with
  | create u v => exact nofun
  | write _ _ _ _ _ _ hfound => rw [hfound]; exact nofun
  | read _ _ _ _ _ _ _ hfound => exact hfound
  | delete row rest => exact h

theorem Audited.arrive (hA : Audited a) {request : SettingsRequest} (hi : a.settings.calls i = none)
    (hend : ∀ p ∈ a.active, p.2.isEnded = true) :
    Audited { a with
      settings := { a.settings with calls := Function.update a.settings.calls i (some request.start) }
      last := some i } := by
  have hlive : ∀ pc, a.settings.calls i = some pc → pc.isEnded = false := by
    rw [hi]
    exact nofun
  -- the last request has nothing pending
  have hholds : Holds a.settings a.failed none none := by
    have := hA.holds
    cases hact : a.active with
    | none => rwa [hact] at this
    | some p =>
      have hobj := SettingsPc.object_of_isEnded (hend p hact)
      have hfound := SettingsPc.found_of_isEnded (hend p hact)
      rwa [hact, Option.bind_some, Option.bind_some, objectOf, hobj,
        SettingsPc.deleting_of_found hfound] at this
  obtain ⟨left, hins, hfailed, hleft⟩ := hholds.inserts
  have hi' : Function.update a.settings.calls i (some request.start) i = some request.start :=
    Function.update_self ..
  refine audited_of_active rfl hi' ?_ hA.nextId ?_ ?_
  · intro j pc hj hpc
    change Function.update a.settings.calls i (some request.start) j = some pc at hpc
    rw [Function.update_of_ne hj] at hpc
    by_cases hlast : a.last = some j
    · refine hend (j, pc) ?_
      rw [AuditState.active, hlast, Option.bind_some, hpc]
      rfl
    · exact hA.quiet j pc hpc hlast
  · rw [objectOf, start_object, SettingsPc.deleting_of_found (start_found request)]
    exact ⟨hholds.unmodified, ⟨left, hins, hfailed, (hleft.move hlive rfl).2⟩, hholds.deletes,
      hholds.stored⟩
  · rw [FoundIn, start_found]
    exact nofun

theorem Audited.step (hA : Audited a) (hC : Repeats a e) (h : auditStep order a e = some a') :
    Audited a' := by
  obtain ⟨s, hs, h⟩ := Option.bind_eq_some_iff.mp h
  cases step_of_settingsStep hs with
  | arrive i request hi =>
    obtain ⟨hend, rfl⟩ := whenever_eq_some.mp h
    exact hA.arrive hi hend
  | operate i pc q w hi hop =>
    obtain ⟨hlast, hact⟩ := hA.active_eq hi hop.live
    cases h
    exact audited_of_active hlast (Function.update_self ..) (hA.others hlast rfl) hA.nextId
      ((hA.holds_active hact).operate hi (hA.found _ hact) hop rfl) ((hA.found _ hact).operate hop rfl)
  | commit i pc q hi hq =>
    obtain ⟨c, hc, rfl⟩ := Option.map_eq_some_iff.mp h
    rw [hi, Option.bind_some] at hc
    obtain ⟨hlast, hact⟩ := hA.active_eq hi (change_eq hc).2.2
    have hH := hA.holds_active hact
    refine audited_of_active hlast (Function.update_self ..) (hA.others hlast rfl)
      (hH.commit_nextId hc hA.nextId (hC pc hi c hc)) ?_ ?_
    · rw [objectOf, afterCommit_object hq, SettingsPc.deleting_of_found (afterCommit_found hq)]
      exact ⟨rfl, ⟨[], rfl, rfl, nofun⟩, fun row => iff_of_false nofun nofun, nofun⟩
    · rw [FoundIn, afterCommit_found hq]
      exact nofun
  | fail i pc q hi hq =>
    obtain ⟨c, hc, rfl⟩ := Option.map_eq_some_iff.mp h
    rw [hi, Option.bind_some] at hc
    obtain ⟨hlast, hact⟩ := hA.active_eq hi (change_eq hc).2.2
    exact audited_of_active hlast (Function.update_self ..) (hA.others hlast rfl) hA.nextId
      ((hA.holds_active hact).fail hi hc rfl) nofun

/-- A step keeps the rows those of the successful commits alone exactly when it is no commit that writes
what has failed before. -/
theorem rows_step_iff (hA : Audited a) (hP : a.settings.table.rows = a.own.rows)
    (h : auditStep order a e = some a') : a'.settings.table.rows = a'.own.rows ↔ Repeats a e := by
  obtain ⟨s, hs, h⟩ := Option.bind_eq_some_iff.mp h
  cases step_of_settingsStep hs with
  | arrive i request hi =>
    obtain ⟨_, rfl⟩ := whenever_eq_some.mp h
    exact iff_of_true hP trivial
  | operate i pc q w hi hop =>
    cases h
    exact iff_of_true hP trivial
  | commit i pc q hi hq =>
    obtain ⟨c, hc, rfl⟩ := Option.map_eq_some_iff.mp h
    rw [hi, Option.bind_some] at hc
    obtain ⟨_, hact⟩ := hA.active_eq hi (change_eq hc).2.2
    have hH := hA.holds_active hact
    constructor
    · intro heq pc' hpc' c' hc' f hf
      obtain rfl : pc = pc' := Option.some.inj (hi.symm.trans hpc')
      obtain rfl : c = c' := Option.some.inj (hc.symm.trans hc')
      exact hH.repeats hc hA.nextId hP heq f hf
    · exact fun hC => hH.commit_rows hc hA.nextId hP (hC pc hi c hc)
  | fail i pc q hi hq =>
    obtain ⟨c, _, rfl⟩ := Option.map_eq_some_iff.mp h
    exact iff_of_true hP trivial

/-! ## Every run -/

theorem settings_of_auditStep (h : auditStep order a e = some a') :
    settingsStep order a.settings e = some a'.settings := by
  obtain ⟨s, hs, h⟩ := Option.bind_eq_some_iff.mp h
  cases e with
  | arrive i request =>
    obtain ⟨_, rfl⟩ := whenever_eq_some.mp h
    exact hs
  | run i =>
    cases h
    exact hs
  | commit i ok =>
    obtain ⟨c, _, rfl⟩ := Option.map_eq_some_iff.mp h
    cases ok <;> exact hs

theorem audit_settings {a : AuditState} {es : List SettingsEvent}
    (h : run (auditStep order) a es = some a') :
    run (settingsStep order) a.settings es = some a'.settings := by
  induction es generalizing a with
  | nil => cases h; rfl
  | cons e es ih =>
    obtain ⟨m, hm, hr⟩ := run_cons_eq_some.mp h
    exact run_cons_eq_some.mpr ⟨m.settings, settings_of_auditStep hm, ih hr⟩

/-- It holds up no step but the arrival of a request before the last one has ended. -/
theorem auditStep_of_settingsStep (h : settingsStep order a.settings e = some s)
    (hserial : ∀ i request, e = .arrive i request → ∀ p ∈ a.active, p.2.isEnded = true) :
    ∃ a', auditStep order a e = some a' ∧ a'.settings = s := by
  unfold auditStep
  rw [h, Option.bind_some]
  cases e with
  | arrive i request => exact ⟨_, whenever_eq_some.mpr ⟨hserial i request rfl, rfl⟩, rfl⟩
  | run i => exact ⟨_, rfl, rfl⟩
  | commit i ok =>
    obtain ⟨pc, hi, hq⟩ := Option.bind_eq_some_iff.mp h
    obtain ⟨q, hq, _⟩ := Option.map_eq_some_iff.mp hq
    obtain ⟨c, hc⟩ : ∃ c, change pc = some c := by
      rcases afterCommit_cases hq with ⟨u, v, rfl, _⟩ | ⟨row, rest, rfl, _⟩ <;> exact ⟨_, rfl⟩
    refine ⟨_, Option.map_eq_some_iff.mpr ⟨c, ?_, rfl⟩, ?_⟩
    · rw [hi, Option.bind_some, hc]
    · cases ok <;> rfl

/-- Along any sequence of requests the committed rows are those of the initial table with the changes of
the successful commits alone exactly when every commit that succeeds is preceded, since the last success,
by failures of the same deletion only. -/
theorem rows_eq_own_iff {t : UserTable} {es : List SettingsEvent}
    (h : run (auditStep order) (.init t) es = some a) :
    Along (auditStep order) Repeats (.init t) es ↔
      ∀ pre m, pre <+: es → run (auditStep order) (.init t) pre = some m →
        m.settings.table.rows = m.own.rows :=
  along_iff_invariant (P := fun m => m.settings.table.rows = m.own.rows)
    (fun _ _ _ hA _ hC => hA.step hC) (fun _ _ _ => rows_step_iff) (audited_init t) rfl h

/-- A user is created; the first request that deletes it fails and the second does not. -/
def deletedTwice : List SettingsEvent :=
  [.arrive 0 (.createUser ⟨0, 0⟩ ⟨0, 1⟩), .run 0, .run 0, .run 0, .commit 0 true,
    .arrive 1 (.deleteUser [uniqueRequestId ⟨0, 0⟩]), .run 1, .run 1, .commit 1 false,
    .arrive 2 (.deleteUser [uniqueRequestId ⟨0, 0⟩]), .run 2, .run 2, .commit 2 true]

theorem deletedTwice_rows :
    Along (auditStep (.asStored _)) Repeats (.init (.empty 200)) deletedTwice ↔
      ∀ pre m, pre <+: deletedTwice →
        run (auditStep (.asStored _)) (.init (.empty 200)) pre = some m →
          m.settings.table.rows = m.own.rows :=
  rows_eq_own_iff
    (Option.some_get (by decide +kernel :
      (run (auditStep (.asStored _)) (.init (.empty 200)) deletedTwice).isSome)).symm

/-- The first request ends in an exception at its commit; the second one commits. -/
def failedCreation : List SettingsEvent :=
  [.arrive 0 (.createUser ⟨0, 0⟩ ⟨0, 1⟩), .run 0, .run 0, .run 0, .commit 0 false,
    .arrive 1 (.createUser ⟨0, 2⟩ ⟨0, 3⟩), .run 1, .run 1, .run 1, .commit 1 true]

theorem failedCreation_committed :
    (run (auditStep (.asStored _)) (.init (.empty 200)) failedCreation).map
        (fun a => (a.settings.calls 0, a.settings.table.rows, a.own.rows)) =
      some (some .threw, [(200, newUser ⟨0, 0⟩ ⟨0, 1⟩), (201, newUser ⟨0, 2⟩ ⟨0, 3⟩)],
        [(200, newUser ⟨0, 2⟩ ⟨0, 3⟩)]) := by
  decide +kernel

end Auth8.Credentials
