import Auth8.Jaxrs.DeleteUser
import Auth8.Security.Signature

/-! # The user of a public key

`signUrl` and `deleteUser` take the first row whose public key is like the key they are given. They act on
the user of that key, in every order of the rows, exactly for the keys that match no other user's key and,
where their user can sign, match themselves. -/
namespace Auth8.Credentials
open KeyedTable LikePattern Persistent Jaxrs Security
set_option autoImplicit false

variable {platform : Platform} {order : UserOrder} {t : UserTable} {publicKey : String}

/-- The call signs as the user of the key, and fails where there is none. -/
def SignsAsUser (platform : Platform) (order : UserOrder) (t : UserTable) (publicKey : String) :
    Prop :=
  ∀ stringToSign,
    (∀ row ∈ t.rows, row.2.publicKey = some publicKey →
      signUrl platform order t stringToSign publicKey = signature platform row.2 stringToSign) ∧
    ((∀ row ∈ t.rows, row.2.publicKey ≠ some publicKey) →
      signUrl platform order t stringToSign publicKey = none)

/-- A call that answers success removes the users of its keys and no others. -/
def RemovesUsers (order : UserOrder) (t : UserTable) (keys : List String) : Prop :=
  ∀ faults, (deleteUser order faults (.clean t) keys).1.isSome = true →
    ∀ row, row ∈ (deleteUser order faults (.clean t) keys).2.table.rows ↔
      row ∈ t.rows ∧ ∀ publicKey ∈ keys, row.2.publicKey ≠ some publicKey

/-- No other user's key is like the key; where its user can sign, the key is like itself. -/
def SelectsOwn (platform : Platform) (t : UserTable) (publicKey : String) : Prop :=
  ∀ row ∈ t.rows, ∀ other, row.2.publicKey = some other →
    (like publicKey other = true → other = publicKey) ∧
    (other = publicKey → (∃ s, (signature platform row.2 s).isSome = true) →
      like publicKey publicKey = true)

theorem any_likeExp_iff {user : User} : user.publicKey.any (likeExp (some publicKey)) = true ↔
    ∃ other, user.publicKey = some other ∧ like publicKey other = true := by
  cases user.publicKey with
  | none => simp
  | some other => simp [likeExp]

theorem SelectsOwn.query (h : SelectsOwn platform t publicKey) {row : ℕ × User}
    (hrow : queryPublicKey order t publicKey = some row) :
    row ∈ t.rows ∧ row.2.publicKey = some publicKey := by
  obtain ⟨hmem, hlike⟩ := of_first hrow
  obtain ⟨other, hother, hlike⟩ := any_likeExp_iff.mp hlike
  obtain rfl := (h row hmem other hother).1 hlike
  exact ⟨hmem, hother⟩

theorem SelectsOwn.signs (h : SelectsOwn platform t publicKey) (ht : t.UniqueOn User.publicKey) :
    SignsAsUser platform order t publicKey := by
  intro s
  rw [signUrl_eq]
  cases hquery : queryPublicKey order t publicKey with
  | some found =>
    obtain ⟨hfound, hkey⟩ := h.query hquery
    refine ⟨fun row hrow hown => ?_, fun hnone => absurd hkey (hnone found hfound)⟩
    rw [ht row hrow found hfound (hown.trans hkey.symm)]
    rfl
  | none =>
    refine ⟨fun row hrow hown => ?_, fun _ => rfl⟩
    -- the key is not like itself, so its user cannot sign
    have hlike : ¬ like publicKey publicKey = true := by
      intro hlike
      have hno := first_eq_none.mp hquery row hrow
      rw [any_likeExp_iff.mpr ⟨publicKey, hown, hlike⟩] at hno
      cases hno
    by_contra hsigns
    exact hlike ((h row hrow publicKey hown).2 rfl
      ⟨s, Option.isSome_iff_ne_none.mpr fun hnone => hsigns hnone.symm⟩)

theorem SelectsOwn.delete (h : SelectsOwn platform t publicKey) (id : ℕ) :
    SelectsOwn platform (t.delete id) publicKey := fun row hrow => h row (mem_delete.mp hrow).1

theorem removesUsers_of_selectsOwn {keys : List String}
    (h : ∀ publicKey ∈ keys, SelectsOwn platform t publicKey) (ht : t.UniqueOn User.publicKey) :
    RemovesUsers order t keys := by
  induction keys generalizing t with
  | nil =>
    intro faults _ row
    simp [Session.clean]
  | cons publicKey keys ih =>
    intro faults hsome row
    rcases deleteUser_cons order faults (.clean t) publicKey keys with ⟨_, hnone, _⟩ | ⟨m, hm, hrest⟩
    · rw [hnone] at hsome
      cases hsome
    · obtain ⟨found, hquery, rfl⟩ := Option.map_eq_some_iff.mp hm
      obtain ⟨hfound, hkey⟩ := (h publicKey List.mem_cons_self).query hquery
      have hlater := ih (t := t.delete found.1)
        (fun k hk => (h k (List.mem_cons_of_mem _ hk)).delete _) ht.delete
        (fun k => faults (k + 1))
      rw [clean_deleteObjects] at hrest
      rw [hrest] at hsome ⊢
      rw [hlater hsome row, mem_delete, List.forall_mem_cons, and_assoc]
      refine and_congr_right fun hrow => and_congr_left fun _ => not_congr ?_
      exact ⟨fun hid => by rw [t.eq_of_id hrow hfound hid, hkey],
        fun hown => by rw [ht row hrow found hfound (hown.trans hkey.symm)]⟩

/-- A row whose key is like the given one can be the one that is deleted. -/
theorem own_of_removesUsers (h : ∀ order, RemovesUsers order t [publicKey]) {row : ℕ × User}
    (hrow : row ∈ t.rows) {other : String} (hother : row.2.publicKey = some other)
    (hlike : like publicKey other = true) : other = publicKey := by
  have hquery : queryPublicKey (.putFirst row) t publicKey = some row :=
    first_putFirst hrow (any_likeExp_iff.mpr ⟨other, hother, hlike⟩)
  have hcall : deleteUser (.putFirst row) (fun _ => .none) (.clean t) [publicKey] =
      (some removed, .clean (t.delete row.1)) := by
    simp only [deleteUser, Session.clean, hquery]
    rfl
  have hrows := h (.putFirst row) (fun _ => .none)
  rw [hcall] at hrows
  by_contra hne
  have hkept := (hrows rfl row).mpr ⟨hrow, by simpa [hother] using hne⟩
  exact (mem_delete.mp hkept).2 rfl

theorem selectsOwn_of_calls (hsigns : ∀ order, SignsAsUser platform order t publicKey)
    (hremoves : ∀ order, RemovesUsers order t [publicKey]) : SelectsOwn platform t publicKey := by
  intro row hrow other hother
  refine ⟨own_of_removesUsers hremoves hrow hother, ?_⟩
  rintro rfl ⟨s, hs⟩
  have hsign := (hsigns (.asStored _) s).1 row hrow hother
  rw [signUrl_eq] at hsign
  cases hquery : queryPublicKey (.asStored _) t other with
  | none =>
    rw [hquery, Option.bind_none] at hsign
    rw [← hsign] at hs
    cases hs
  | some found =>
    obtain ⟨hfound, hlike⟩ := of_first hquery
    obtain ⟨key, hkey, hlike⟩ := any_likeExp_iff.mp hlike
    rwa [own_of_removesUsers hremoves hfound hkey hlike] at hlike

/-! ## The keys that act on their user -/

theorem actsOnUser_iff (platform : Platform) (t : UserTable) (K : Set String)
    (ht : t.UniqueOn User.publicKey) :
    (∀ order, (∀ publicKey ∈ K, SignsAsUser platform order t publicKey) ∧
      ∀ keys : List String, (∀ publicKey ∈ keys, publicKey ∈ K) → RemovesUsers order t keys) ↔
    ∀ publicKey ∈ K, SelectsOwn platform t publicKey := by
  constructor
  · intro h publicKey hK
    refine selectsOwn_of_calls (fun order => (h order).1 publicKey hK) fun order => ?_
    exact (h order).2 [publicKey] (by simpa using hK)
  · intro h order
    exact ⟨fun publicKey hK => (h publicKey hK).signs ht,
      fun keys hkeys => removesUsers_of_selectsOwn (fun k hk => h k (hkeys k hk)) ht⟩

/-- A store with the default user only. -/
def defaultUser : UserTable := (empty 200).insert ⟨some "changeit", some "changeit"⟩

theorem defaultUser_unique : defaultUser.UniqueOn User.publicKey :=
  (uniqueOn_empty _ _).insert nofun

def constantMac : Platform := ⟨utf8Encode, fun _ _ => some (Vector.replicate 20 0)⟩

theorem defaultUser_actsOnUser :
    (∀ order, (∀ publicKey ∈ ({"changeit"} : Set String),
        SignsAsUser constantMac order defaultUser publicKey) ∧
      ∀ keys : List String, (∀ publicKey ∈ keys, publicKey ∈ ({"changeit"} : Set String)) →
        RemovesUsers order defaultUser keys) ↔
    ∀ publicKey ∈ ({"changeit"} : Set String), SelectsOwn constantMac defaultUser publicKey :=
  actsOnUser_iff constantMac defaultUser {"changeit"} defaultUser_unique

/-- A request to delete the key `%` deletes the default user. -/
theorem wildcard_removes_user : ¬ ∀ (platform : Platform) (order : UserOrder) (t : UserTable),
    t.UniqueOn User.publicKey → (∀ row ∈ t.rows, row.2.publicKey ≠ none) →
      (∀ publicKey, SignsAsUser platform order t publicKey) ∧ ∀ keys, RemovesUsers order t keys := by
  intro h
  have hkeys := (h constantMac (.asStored _) defaultUser defaultUser_unique (by decide)).2 ["%"]
    fun _ => .none
  have hrow := (hkeys (by decide +kernel) (200, ⟨some "changeit", some "changeit"⟩)).mpr (by decide)
  revert hrow
  decide +kernel

end Auth8.Credentials
