import Auth8.Aws.SnsMobilePush
import Auth8.Jaxrs.V1RegDevice
import Auth8.Server.Machine

/-! # Which account a push goes to

The purpose of the table `DEVICE` is a map from emails to devices. Both the choice between update and
insert and the lookup of `authenticate` compare by LIKE, so the code implements that map over a set of
emails exactly when LIKE is equality on the set. -/
namespace Auth8.Devices
open KeyedTable LikePattern Unicode Persistent Jaxrs Aws
set_option autoImplicit false

/-- A `regNewDevice` call with non-null arguments. -/
structure Registration where
  email : String
  regid : String
  name : String
  deriving DecidableEq, Repr

def Registration.Fits (r : Registration) : Prop :=
  utf16Length r.email ≤ emailLength ∧ utf16Length r.regid ≤ regidLength ∧
    utf16Length r.name ≤ nameLength

def Registration.device (r : Registration) : Device := ⟨r.email, some r.name, r.regid⟩

/-- The call on the table, with nothing failing. -/
def Registration.apply (order : DeviceOrder) (t : DeviceTable) (r : Registration) : DeviceTable :=
  (regNewDevice order .none t (some r.email) (some r.regid) (some r.name)).2

def table (order : DeviceOrder) (nextId : ℕ) (h : List Registration) : DeviceTable :=
  h.foldl (Registration.apply order) (.empty nextId)

def lookup (order : DeviceOrder) (t : DeviceTable) (email : String) : Server.Lookup :=
  match queryEmail order t (some email) with
  | some row => .found row.2
  | none => .empty

/-! ## The map -/

/-- What the table is for. -/
def register (m : String → Option Device) (r : Registration) : String → Option Device :=
  Function.update m r.email (some r.device)

/-- The last call with exactly this email. -/
def lastRegistration (h : List Registration) (email : String) : Option Registration :=
  (h.filter fun r => decide (r.email = email)).getLast?

theorem foldl_register (h : List Registration) (e : String) :
    h.foldl register (fun _ => none) e = (lastRegistration h e).map Registration.device := by
  induction h using List.reverseRecOn with
  | nil => rfl
  | append_singleton h r ih =>
    rw [List.foldl_append, List.foldl_cons, List.foldl_nil, register, lastRegistration,
      List.filter_append]
    by_cases he : r.email = e
    · simp [he]
    · rw [Function.update_of_ne (Ne.symm he), ih]
      simp [he, lastRegistration]

/-! ## Refinement -/

/-- LIKE is equality on the emails of `S`. -/
def LikeIsEq (S : Set String) : Prop := ∀ p ∈ S, ∀ q ∈ S, like p q = true ↔ p = q

structure Refines (S : Set String) (m : String → Option Device) (t : DeviceTable) : Prop where
  emails : ∀ r ∈ t.rows, r.2.email ∈ S
  unique : t.UniqueOn Device.email
  agree : ∀ e d, m e = some d ↔ d.email = e ∧ ∃ r ∈ t.rows, r.2 = d

theorem refines_empty (S : Set String) (nextId : ℕ) : Refines S (fun _ => none) (.empty nextId) := by
  refine ⟨nofun, uniqueOn_empty _ _, ?_⟩
  intro e d
  constructor
  · intro h
    cases h
  · rintro ⟨_, r, hr, _⟩
    cases hr

section
variable {order : DeviceOrder} {S : Set String} {m : String → Option Device} {t : DeviceTable}
variable {r : Registration} {e : String}

theorem Refines.likeExp_iff (h : Refines S m t) (hS : LikeIsEq S) (he : e ∈ S) {row : ℕ × Device}
    (hrow : row ∈ t.rows) : likeExp (some e) row.2.email = true ↔ row.2.email = e :=
  (hS e he _ (h.emails row hrow)).trans eq_comm

theorem Refines.query (h : Refines S m t) (hS : LikeIsEq S) (he : e ∈ S) {row : ℕ × Device} :
    queryEmail order t (some e) = some row ↔ row ∈ t.rows ∧ row.2.email = e := by
  constructor
  · intro hq
    obtain ⟨hrow, hp⟩ := of_first hq
    exact ⟨hrow, (h.likeExp_iff hS he hrow).mp hp⟩
  · rintro ⟨hrow, hre⟩
    refine first_eq_some hrow ((h.likeExp_iff hS he hrow).mpr hre) ?_
    intro q hq hp
    exact h.unique q hq row hrow (((h.likeExp_iff hS he hq).mp hp).trans hre.symm)

theorem Refines.query_none (h : Refines S m t) (hS : LikeIsEq S) (he : e ∈ S) :
    queryEmail order t (some e) = none ↔ ∀ row ∈ t.rows, row.2.email ≠ e := by
  rw [queryEmail, first_eq_none]
  refine forall₂_congr fun row hrow => ?_
  rw [← Bool.not_eq_true]
  exact not_congr (h.likeExp_iff hS he hrow)

theorem Refines.lookup (h : Refines S m t) (hS : LikeIsEq S) (he : e ∈ S) :
    lookup order t e = match m e with
      | some d => .found d
      | none => .empty := by
  rw [Devices.lookup]
  cases hq : queryEmail order t (some e) with
  | some row =>
    have hm : m e = some row.2 := by
      obtain ⟨hrow, hre⟩ := (h.query hS he).mp hq
      exact (h.agree e row.2).mpr ⟨hre, row, hrow, rfl⟩
    rw [hm]
  | none =>
    have hm : m e = none := by
      by_contra hne
      obtain ⟨d, hd⟩ := Option.ne_none_iff_exists'.mp hne
      obtain ⟨hde, row, hrow, rfl⟩ := (h.agree e d).mp hd
      exact (h.query_none hS he).mp hq row hrow hde
    rw [hm]

theorem validate_device (hr : r.Fits) :
    validate (some r.email) (some r.regid) (some r.name) = some r.device := by
  obtain ⟨h1, h2, h3⟩ := hr
  simp [validate, h1, h2, h3, Registration.device]

theorem apply_update (hr : r.Fits) {row : ℕ × Device}
    (hq : queryEmail order t (some r.email) = some row) (hre : row.2.email = r.email) :
    r.apply order t = t.update row.1 (writeColumns row.2 r.device) := by
  simp [Registration.apply, regNewDevice, Faults.none, planReg, hq, commitReg, hre,
    validate_device hr]

theorem apply_insert (hr : r.Fits) (hq : queryEmail order t (some r.email) = none) :
    r.apply order t = t.insert r.device := by
  simp [Registration.apply, regNewDevice, Faults.none, planReg, hq, commitReg, validate_device hr]

theorem Refines.register {t' : DeviceTable} (h : Refines S m t) (he : r.email ∈ S)
    (hunique : t'.UniqueOn Device.email)
    (hrows : ∀ d, (∃ q ∈ t'.rows, q.2 = d) ↔
      d = r.device ∨ d.email ≠ r.email ∧ ∃ q ∈ t.rows, q.2 = d) :
    Refines S (Devices.register m r) t' := by
  refine ⟨?_, hunique, ?_⟩
  · intro q hq
    rcases (hrows q.2).mp ⟨q, hq, rfl⟩ with hd | ⟨_, q', hq', hd⟩
    · rw [hd]
      exact he
    · rw [← hd]
      exact h.emails q' hq'
  · intro e d
    rw [hrows, Devices.register]
    by_cases hed : e = r.email
    · subst hed
      rw [Function.update_self, Option.some.injEq]
      constructor
      · rintro rfl
        exact ⟨rfl, .inl rfl⟩
      · rintro ⟨hde, rfl | ⟨hne, _⟩⟩
        · rfl
        · exact absurd hde hne
    · rw [Function.update_of_ne hed, h.agree]
      refine and_congr_right ?_
      rintro rfl
      constructor
      · exact fun hq => .inr ⟨hed, hq⟩
      · rintro (rfl | ⟨_, hq⟩)
        · exact absurd rfl hed
        · exact hq

theorem Refines.apply (h : Refines S m t) (hS : LikeIsEq S) (hr : r.Fits) (he : r.email ∈ S) :
    Refines S (Devices.register m r) (r.apply order t) := by
  cases hq : queryEmail order t (some r.email) with
  | some row =>
    obtain ⟨hrow, hre⟩ := (h.query hS he).mp hq
    rw [apply_update hr hq hre]
    refine h.register he (h.unique.update fun d => writeColumns_email hre.symm d) ?_
    have hmem : ∀ q, q ∈ (t.update row.1 (writeColumns row.2 r.device)).rows ↔
        q = (row.1, r.device) ∨ q ∈ t.rows ∧ q.1 ≠ row.1 := by
      intro q
      rw [mem_update_of_mem (a := row.2) hrow, writeColumns_self]
    -- the row of this email is the one that is updated
    have hid : ∀ q ∈ t.rows, q.1 = row.1 ↔ q.2.email = r.email := by
      intro q hq
      constructor
      · intro hqid
        rw [t.eq_of_id hq hrow hqid, hre]
      · intro hqe
        rw [h.unique q hq row hrow (hqe.trans hre.symm)]
    intro d
    constructor
    · rintro ⟨q, hq, rfl⟩
      rcases (hmem q).mp hq with rfl | ⟨hq, hne⟩
      · exact .inl rfl
      · exact .inr ⟨fun hqe => hne ((hid q hq).mpr hqe), q, hq, rfl⟩
    · rintro (rfl | ⟨hne, q, hq, rfl⟩)
      · exact ⟨_, (hmem _).mpr (.inl rfl), rfl⟩
      · exact ⟨q, (hmem q).mpr (.inr ⟨hq, fun hqid => hne ((hid q hq).mp hqid)⟩), rfl⟩
  | none =>
    have hnew := (h.query_none hS he).mp hq
    rw [apply_insert hr hq]
    refine h.register he (h.unique.insert hnew) ?_
    intro d
    constructor
    · rintro ⟨q, hq, rfl⟩
      rcases mem_insert.mp hq with hq | rfl
      · exact .inr ⟨hnew q hq, q, hq, rfl⟩
      · exact .inl rfl
    · rintro (rfl | ⟨_, q, hq, rfl⟩)
      · exact ⟨_, mem_insert.mpr (.inr rfl), rfl⟩
      · exact ⟨q, mem_insert.mpr (.inl hq), rfl⟩

theorem refines_table (order : DeviceOrder) (nextId : ℕ) (hS : LikeIsEq S) {h : List Registration}
    (hh : ∀ r ∈ h, r.email ∈ S ∧ r.Fits) :
    Refines S (h.foldl Devices.register fun _ => none) (table order nextId h) := by
  induction h using List.reverseRecOn with
  | nil => exact refines_empty S nextId
  | append_singleton h r ih =>
    rw [table, List.foldl_append, List.foldl_append]
    obtain ⟨he, hr⟩ := hh r (by simp)
    exact (ih fun q hq => hh q (List.mem_append_left _ hq)).apply hS hr he

end

/-! ## The push -/

/-- `authenticate` sends its push to the `regid` of the last call with exactly this email, and finds no
device when there is none. -/
def PushesToLast (order : DeviceOrder) (nextId : ℕ) (h : List Registration) (e : String) : Prop :=
  match lastRegistration h e with
  | some r => ∃ device, lookup order (table order nextId h) e = .found device ∧
      ∀ key requestId payload,
        (demoAndroidAppNotification key device requestId payload).platformToken = r.regid
  | none => lookup order (table order nextId h) e = .empty

/-- One call on the empty table is all it takes to see what LIKE does with two emails. -/
theorem lookup_single (order : DeviceOrder) (nextId : ℕ) {r : Registration} (hr : r.Fits)
    (e : String) :
    lookup order (table order nextId [r]) e =
      if like e r.email = true then .found r.device else .empty := by
  have hq : queryEmail order (.empty nextId) (some r.email) = none := first_eq_none.mpr nofun
  have ht : table order nextId [r] = (KeyedTable.empty nextId).insert r.device := apply_insert hr hq
  have honly : ∀ q ∈ ((KeyedTable.empty nextId).insert r.device).rows, q = (nextId, r.device) := by
    intro q hq
    rcases mem_insert.mp hq with hq | hq
    · cases hq
    · exact hq
  rw [lookup, ht]
  split_ifs with hl
  · have hfirst : queryEmail order ((KeyedTable.empty nextId).insert r.device) (some e) =
        some (nextId, r.device) :=
      first_eq_some (mem_insert.mpr (.inr rfl)) hl fun q hq _ => honly q hq
    rw [hfirst]
  · have hfirst : queryEmail order ((KeyedTable.empty nextId).insert r.device) (some e) = none := by
      refine first_eq_none.mpr fun q hq => ?_
      rw [honly q hq]
      exact Bool.not_eq_true _ ▸ hl
    rw [hfirst]

/-- Over a set of emails, every history of registrations serves every email of the set correctly exactly
when LIKE is equality on the set. -/
theorem pushesToLast_iff (order : DeviceOrder) (nextId : ℕ) {S : Set String}
    (hfit : ∀ e ∈ S, utf16Length e ≤ emailLength) :
    (∀ h : List Registration, (∀ r ∈ h, r.email ∈ S ∧ r.Fits) →
      ∀ e ∈ S, PushesToLast order nextId h e) ↔ LikeIsEq S := by
  constructor
  · intro hall p hp q hq
    -- the email `q` is registered and `p` is looked up
    have hr : Registration.Fits ⟨q, "", ""⟩ := ⟨hfit q hq, Nat.zero_le _, Nat.zero_le _⟩
    have hpush := hall [⟨q, "", ""⟩] (by simpa using ⟨hq, hr⟩) p hp
    rw [PushesToLast, lookup_single order nextId hr] at hpush
    by_cases hpq : q = p
    · rw [show lastRegistration [⟨q, "", ""⟩] p = some ⟨q, "", ""⟩ by simp [lastRegistration, hpq]]
        at hpush
      obtain ⟨device, hd, _⟩ := hpush
      split_ifs at hd with hl
      exact iff_of_true hl hpq.symm
    · rw [show lastRegistration [⟨q, "", ""⟩] p = none by simp [lastRegistration, hpq]] at hpush
      split_ifs at hpush with hl
      · exact absurd hpush nofun
      · exact iff_of_false hl (Ne.symm hpq)
  · intro hS h hh e he
    have href := refines_table order nextId hS hh
    rw [PushesToLast, href.lookup hS he, foldl_register]
    cases lastRegistration h e with
    | none => rfl
    | some r => exact ⟨r.device, rfl, fun _ _ _ => rfl⟩

theorem plain_address_pushesToLast :
    PushesToLast (.asStored _) 200
      [⟨"jane@example.com", "gcm1", "phone"⟩, ⟨"jane@example.com", "gcm2", "tablet"⟩]
      "jane@example.com" := by
  have hplain : ∀ c ∈ "jane@example.com".toList, isPlain c = true :=
    List.all_eq_true.mp (by decide +kernel)
  have hS : LikeIsEq {"jane@example.com"} := by
    rintro p rfl q rfl
    exact like_plain hplain _
  refine (pushesToLast_iff (.asStored _) 200 (S := {"jane@example.com"}) ?_).mpr hS _ ?_ _ rfl
  · rintro e rfl
    decide +kernel
  · simp only [List.mem_cons, List.not_mem_nil, or_false, forall_eq_or_imp, forall_eq,
      Set.mem_singleton_iff, Registration.Fits]
    decide +kernel

/-- An address with an underscore is sent the push of another account, and registering it moves the
pushes of that account to its own device. -/
theorem underscore_reaches_other_account :
    ¬ PushesToLast (.asStored _) 200 [⟨"johnXdoe@example.com", "gcm1", "phone"⟩]
        "john_doe@example.com" ∧
    ¬ PushesToLast (.asStored _) 200 [⟨"johnXdoe@example.com", "gcm1", "phone"⟩,
        ⟨"john_doe@example.com", "gcm2", "tablet"⟩] "johnXdoe@example.com" := by
  constructor
  · have hlookup : lookup (.asStored _) (table (.asStored _) 200
        [⟨"johnXdoe@example.com", "gcm1", "phone"⟩]) "john_doe@example.com" ≠ .empty := by
      decide +kernel
    exact hlookup
  · have hlookup : lookup (.asStored _) (table (.asStored _) 200
        [⟨"johnXdoe@example.com", "gcm1", "phone"⟩, ⟨"john_doe@example.com", "gcm2", "tablet"⟩])
        "johnXdoe@example.com" = .found ⟨"johnXdoe@example.com", some "tablet", "gcm2"⟩ := by
      decide +kernel
    rintro ⟨device, hd, htoken⟩
    rw [hlookup] at hd
    cases hd
    exact absurd (htoken "" "" []) (by decide +kernel)

end Auth8.Devices
