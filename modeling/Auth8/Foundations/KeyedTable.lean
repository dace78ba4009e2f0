import Mathlib.Data.List.Nodup
import Mathlib.Data.List.Perm.Basic
import Mathlib.Data.Nat.Notation

/-! # Tables with generated keys

A table is the list of its rows with their primary keys. Keys are handed out in ascending order, and the
structure carries that they are distinct and below the next one, so no operation can break it. -/
set_option autoImplicit false

/-- A table whose primary key is generated. -/
@[ext] structure KeyedTable (α : Type*) where
  rows : List (ℕ × α)
  nextId : ℕ
  fresh : ∀ r ∈ rows, r.1 < nextId
  nodup : (rows.map Prod.fst).Nodup

namespace KeyedTable
variable {α κ : Type*}

def empty (nextId : ℕ) : KeyedTable α := ⟨[], nextId, nofun, List.nodup_nil⟩

def insert (t : KeyedTable α) (a : α) : KeyedTable α where
  rows := t.rows ++ [(t.nextId, a)]
  nextId := t.nextId + 1
  fresh := by
    intro r hr
    rcases List.mem_append.mp hr with hr | hr
    · exact Nat.lt_succ_of_lt (t.fresh r hr)
    · rw [List.mem_singleton.mp hr]
      exact Nat.lt_succ_self _
  nodup := by
    rw [List.map_append, List.nodup_append]
    refine ⟨t.nodup, List.nodup_singleton _, ?_⟩
    intro i hi j hj
    obtain ⟨r, hr, rfl⟩ := List.mem_map.mp hi
    rw [List.mem_singleton.mp hj]
    exact Nat.ne_of_lt (t.fresh r hr)

def updateRow (id : ℕ) (f : α → α) (r : ℕ × α) : ℕ × α := if r.1 = id then (r.1, f r.2) else r

@[simp] theorem updateRow_fst (id : ℕ) (f : α → α) (r : ℕ × α) : (updateRow id f r).1 = r.1 := by
  unfold updateRow
  split <;> rfl

/-- UPDATE by primary key; without such a row, nothing happens. -/
def update (t : KeyedTable α) (id : ℕ) (f : α → α) : KeyedTable α where
  rows := t.rows.map (updateRow id f)
  nextId := t.nextId
  fresh := by
    intro r hr
    obtain ⟨q, hq, rfl⟩ := List.mem_map.mp hr
    rw [updateRow_fst]
    exact t.fresh q hq
  nodup := by
    rw [List.map_map]
    have hfst : Prod.fst ∘ updateRow id f = Prod.fst := funext (updateRow_fst id f)
    rw [hfst]
    exact t.nodup

def delete (t : KeyedTable α) (id : ℕ) : KeyedTable α where
  rows := t.rows.filter fun r => !decide (r.1 = id)
  nextId := t.nextId
  fresh := fun r hr => t.fresh r (List.mem_of_mem_filter hr)
  nodup := t.nodup.sublist (List.filter_sublist.map _)

variable {t : KeyedTable α} {r q : ℕ × α} {id : ℕ} {a : α} {f : α → α} {key : α → κ}

@[simp] theorem mem_insert : r ∈ (t.insert a).rows ↔ r ∈ t.rows ∨ r = (t.nextId, a) := by
  simp [insert]

theorem mem_update : r ∈ (t.update id f).rows ↔ ∃ q ∈ t.rows, updateRow id f q = r := List.mem_map

@[simp] theorem mem_delete : r ∈ (t.delete id).rows ↔ r ∈ t.rows ∧ r.1 ≠ id := by
  simp [delete]

theorem eq_of_id (t : KeyedTable α) (hr : r ∈ t.rows) (hq : q ∈ t.rows) (h : r.1 = q.1) : r = q :=
  List.inj_on_of_nodup_map t.nodup hr hq h

theorem mem_update_of_mem (hq : (id, a) ∈ t.rows) :
    r ∈ (t.update id f).rows ↔ r = (id, f a) ∨ r ∈ t.rows ∧ r.1 ≠ id := by
  rw [mem_update]
  constructor
  · rintro ⟨p, hp, rfl⟩
    by_cases hid : p.1 = id
    · obtain rfl := t.eq_of_id hp hq hid
      exact .inl (by simp [updateRow])
    · exact .inr (by simp [updateRow, hid, hp])
  · rintro (rfl | ⟨hr, hid⟩)
    · exact ⟨_, hq, by simp [updateRow]⟩
    · exact ⟨r, hr, by simp [updateRow, hid]⟩

/-! ## Unique columns -/

/-- No two rows have the same value in the column. -/
def UniqueOn (key : α → κ) (t : KeyedTable α) : Prop :=
  ∀ r ∈ t.rows, ∀ q ∈ t.rows, key r.2 = key q.2 → r = q

theorem uniqueOn_empty (key : α → κ) (nextId : ℕ) : UniqueOn key (empty nextId) := nofun

theorem UniqueOn.insert (h : UniqueOn key t) (hnew : ∀ r ∈ t.rows, key r.2 ≠ key a) :
    UniqueOn key (t.insert a) := by
  intro r hr q hq hk
  rcases mem_insert.mp hr with hr | rfl <;> rcases mem_insert.mp hq with hq | rfl
  · exact h r hr q hq hk
  · exact absurd hk (hnew r hr)
  · exact absurd hk.symm (hnew q hq)
  · rfl

theorem UniqueOn.update (h : UniqueOn key t) (hf : ∀ a, key (f a) = key a) :
    UniqueOn key (t.update id f) := by
  have hkey : ∀ p : ℕ × α, key (updateRow id f p).2 = key p.2 := by
    intro p
    unfold updateRow
    split
    · exact hf p.2
    · rfl
  intro r hr q hq hk
  obtain ⟨r₀, hr₀, rfl⟩ := mem_update.mp hr
  obtain ⟨q₀, hq₀, rfl⟩ := mem_update.mp hq
  rw [hkey, hkey] at hk
  rw [h r₀ hr₀ q₀ hq₀ hk]

theorem UniqueOn.delete (h : UniqueOn key t) : UniqueOn key (t.delete id) := by
  intro r hr q hq hk
  exact h r (mem_delete.mp hr).1 q (mem_delete.mp hq).1 hk

/-! ## The first row of a selection -/

/-- The order in which selected rows are returned: fixed, but not known. -/
structure RowOrder (α : Type*) where
  arrange : List α → List α
  perm : ∀ rows, (arrange rows).Perm rows

def RowOrder.asStored (α : Type*) : RowOrder α := ⟨fun rows => rows, fun _ => .refl _⟩

/-- The stored order with one row taken to the front. -/
def RowOrder.putFirst [DecidableEq α] (r : α) : RowOrder α where
  arrange := fun rows => if r ∈ rows then r :: rows.erase r else rows
  perm := by
    intro rows
    split
    · rename_i hr
      exact (List.perm_cons_erase hr).symm
    · exact .refl _

/-- An order that differs in one selection, where it takes one row to the front. -/
def RowOrder.override [DecidableEq α] (order : RowOrder α) (selection : List α) (r : α) :
    RowOrder α where
  arrange := fun rows =>
    if rows = selection then (RowOrder.putFirst r).arrange rows else order.arrange rows
  perm := by
    intro rows
    split
    · exact (RowOrder.putFirst r).perm rows
    · exact order.perm rows

def first (order : RowOrder (ℕ × α)) (t : KeyedTable α) (p : α → Bool) : Option (ℕ × α) :=
  (order.arrange (t.rows.filter fun r => p r.2)).head?

variable {order : RowOrder (ℕ × α)} {p : α → Bool}

theorem of_first (h : first order t p = some r) : r ∈ t.rows ∧ p r.2 = true := by
  have hmem := (order.perm _).mem_iff.mp (List.mem_of_mem_head? h)
  exact List.mem_filter.mp hmem

theorem first_eq_none : first order t p = none ↔ ∀ r ∈ t.rows, p r.2 = false := by
  rw [first, List.head?_eq_none_iff, ← List.perm_nil, (order.perm _).congr_left, List.perm_nil,
    List.filter_eq_nil_iff]
  simp

theorem first_eq_some (hr : r ∈ t.rows) (hp : p r.2 = true)
    (honly : ∀ q ∈ t.rows, p q.2 = true → q = r) : first order t p = some r := by
  cases hf : first order t p with
  | none =>
    rw [first_eq_none.mp hf r hr] at hp
    cases hp
  | some q =>
    obtain ⟨hq, hpq⟩ := of_first hf
    rw [honly q hq hpq]

/-- Any row of a selection may come first. -/
theorem first_putFirst [DecidableEq α] (hr : r ∈ t.rows) (hp : p r.2 = true) :
    first (.putFirst r) t p = some r := by
  have hmem : r ∈ t.rows.filter fun q => p q.2 := List.mem_filter.mpr ⟨hr, hp⟩
  simp [first, RowOrder.putFirst, hmem]

theorem first_override [DecidableEq α] (hr : r ∈ t.rows) (hp : p r.2 = true) :
    first (order.override (t.rows.filter fun q => p q.2) r) t p = some r := by
  rw [← first_putFirst hr hp]
  exact congrArg List.head? (if_pos rfl)

/-- Where the row is missing, the order is the old one. -/
theorem first_override_of_notMem [DecidableEq α] {selection : List (ℕ × α)} (hr : r ∉ t.rows)
    (hsel : r ∈ selection) : first (order.override selection r) t p = first order t p := by
  refine congrArg List.head? (if_neg ?_)
  rintro rfl
  exact hr (List.mem_of_mem_filter hsel)

end KeyedTable
