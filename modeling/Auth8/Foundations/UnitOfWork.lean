import Auth8.Foundations.KeyedTable
import Mathlib.Data.List.Basic

/-! # Units of work

The changes an object context holds against a table until they are committed: objects that are new, by a
handle of whoever created them, changes to objects that have rows, and rows to delete. A commit writes
all of them, inserts first and deletes last. -/
set_option autoImplicit false

namespace KeyedTable
variable {α : Type*} {t : KeyedTable α} {r : ℕ × α}

/-! ## Many operations on a table -/

def insertAll (t : KeyedTable α) (as : List α) : KeyedTable α := as.foldl insert t

def updateAll (t : KeyedTable α) (fs : List (ℕ × (α → α))) : KeyedTable α :=
  fs.foldl (fun t f => t.update f.1 f.2) t

def deleteAll (t : KeyedTable α) (ids : List ℕ) : KeyedTable α := ids.foldl delete t

@[simp] theorem insertAll_nextId (as : List α) : (t.insertAll as).nextId = t.nextId + as.length := by
  induction as generalizing t with
  | nil => rfl
  | cons a as ih =>
    have h : (t.insertAll (a :: as)).nextId = ((t.insert a).insertAll as).nextId := rfl
    have hnext : (t.insert a).nextId = t.nextId + 1 := rfl
    rw [h, ih, hnext, List.length_cons]
    omega

/-- The inserted values get the keys from `nextId` on, in their order. -/
theorem mem_insertAll {as : List α} :
    r ∈ (t.insertAll as).rows ↔ r ∈ t.rows ∨ ∃ k, as[k]? = some r.2 ∧ r.1 = t.nextId + k := by
  induction as generalizing t with
  | nil => simp [insertAll]
  | cons a as ih =>
    have h : (t.insertAll (a :: as)).rows = ((t.insert a).insertAll as).rows := rfl
    have hnext : (t.insert a).nextId = t.nextId + 1 := rfl
    rw [h, ih, mem_insert, or_assoc, hnext,
      ← Nat.or_exists_add_one (p := fun k => (a :: as)[k]? = some r.2 ∧ r.1 = t.nextId + k)]
    refine or_congr_right (or_congr ?_ (exists_congr fun k => ?_))
    · rw [List.getElem?_cons_zero, Prod.ext_iff, Option.some.injEq, Nat.add_zero, and_comm]
      exact and_congr_left' eq_comm
    · rw [List.getElem?_cons_succ]
      refine and_congr_right fun _ => ?_
      omega

@[simp] theorem deleteAll_nextId (ids : List ℕ) : (t.deleteAll ids).nextId = t.nextId := by
  induction ids generalizing t with
  | nil => rfl
  | cons id ids ih => exact ih (t := t.delete id)

theorem deleteAll_rows (ids : List ℕ) :
    (t.deleteAll ids).rows = t.rows.filter fun r => decide (r.1 ∉ ids) := by
  induction ids generalizing t with
  | nil => simp [deleteAll]
  | cons id ids ih =>
    have h : (t.deleteAll (id :: ids)).rows = ((t.delete id).deleteAll ids).rows := rfl
    rw [h, ih, delete, List.filter_filter]
    refine List.filter_congr fun r _ => ?_
    rw [Bool.eq_iff_iff]
    simp [and_comm]

theorem deleteAll_insert (t : KeyedTable α) (ids : List ℕ) (id : ℕ) :
    t.deleteAll (ids.insert id) = (t.deleteAll ids).delete id := by
  apply KeyedTable.ext
  · have hrows : ((t.deleteAll ids).delete id).rows =
        (t.deleteAll ids).rows.filter fun r => !decide (r.1 = id) := rfl
    rw [hrows, deleteAll_rows, deleteAll_rows, List.filter_filter]
    refine List.filter_congr fun r _ => ?_
    rw [Bool.eq_iff_iff]
    simp [List.mem_insert_iff]
  · have hnext : ((t.deleteAll ids).delete id).nextId = (t.deleteAll ids).nextId := rfl
    rw [hnext, deleteAll_nextId, deleteAll_nextId]

end KeyedTable

/-! ## The unit of work -/

structure UnitOfWork (α : Type*) where
  /-- the new objects, by handle -/
  inserts : List (ℕ × α)
  /-- the rows of the objects that have been inserted, by handle -/
  saved : List (ℕ × ℕ)
  updates : List (ℕ × (α → α))
  deletes : List ℕ

namespace UnitOfWork
open KeyedTable
variable {α : Type*}

def empty : UnitOfWork α := ⟨[], [], [], []⟩

def newObject (w : UnitOfWork α) (handle : ℕ) (a : α) : UnitOfWork α :=
  { w with inserts := w.inserts ++ [(handle, a)] }

/-- A change of an object by its handle: the object is still new, or it has a row. -/
def modify (w : UnitOfWork α) (handle : ℕ) (f : α → α) : UnitOfWork α :=
  if handle ∈ w.inserts.map Prod.fst then { w with inserts := w.inserts.map (updateRow handle f) } else
    match w.saved.lookup handle with
    | some row => { w with updates := w.updates ++ [(row, f)] }
    | none => w

def deleteObject (w : UnitOfWork α) (row : ℕ) : UnitOfWork α :=
  { w with deletes := w.deletes.insert row }

def commit (w : UnitOfWork α) (t : KeyedTable α) : KeyedTable α :=
  ((t.insertAll (w.inserts.map Prod.snd)).updateAll w.updates).deleteAll w.deletes

/-- The unit of work after a commit: the new objects have got their rows, and nothing is pending. -/
def committed (w : UnitOfWork α) (t : KeyedTable α) : UnitOfWork α :=
  { (empty : UnitOfWork α) with
    saved := w.saved ++ w.inserts.zipIdx.map fun p => (p.1.1, t.nextId + p.2) }

/-- The rows of the table as the objects of the unit of work show them. -/
def read (w : UnitOfWork α) (t : KeyedTable α) : List (ℕ × α) := (t.updateAll w.updates).rows

variable {w : UnitOfWork α} {t : KeyedTable α} {r : ℕ × α} {p : ℕ × α} {handle : ℕ} {f : α → α}

theorem modify_of_mem {a : α} (h : (handle, a) ∈ w.inserts) :
    w.modify handle f = { w with inserts := w.inserts.map (updateRow handle f) } :=
  if_pos (List.mem_map.mpr ⟨_, h, rfl⟩)

theorem mem_commit (hu : w.updates = []) :
    r ∈ (w.commit t).rows ↔
      (r ∈ t.rows ∨ ∃ k, (w.inserts.map Prod.snd)[k]? = some r.2 ∧ r.1 = t.nextId + k) ∧
        r.1 ∉ w.deletes := by
  rw [commit, hu, deleteAll_rows, List.mem_filter, decide_eq_true_iff, ← mem_insertAll]
  rfl

/-- A deletion that is added to what is pending. -/
theorem deleteObject_commit (w : UnitOfWork α) (t : KeyedTable α) (row : ℕ) :
    (w.deleteObject row).commit t = (w.commit t).delete row := deleteAll_insert _ w.deletes row

theorem of_mem_commit (hu : w.updates = []) (h : r ∈ (w.commit t).rows) :
    r ∈ t.rows ∨ ∃ p ∈ w.inserts, p.2 = r.2 := by
  refine ((mem_commit hu).mp h).1.imp_right ?_
  rintro ⟨k, hk, _⟩
  exact List.mem_map.mp (List.mem_of_getElem? hk)

/-- Every new object gets a row of its own, where only rows that were there are deleted. -/
theorem exists_mem_commit (hu : w.updates = []) (hd : ∀ id ∈ w.deletes, id < t.nextId)
    (hp : p ∈ w.inserts) : ∃ r ∈ (w.commit t).rows, t.nextId ≤ r.1 ∧ r.2 = p.2 := by
  obtain ⟨k, hk⟩ := List.getElem?_of_mem (List.mem_map_of_mem (f := Prod.snd) hp)
  refine ⟨(t.nextId + k, p.2), (mem_commit hu).mpr ⟨.inr ⟨k, hk, rfl⟩, ?_⟩, Nat.le_add_right _ _, rfl⟩
  intro hdel
  have := hd _ hdel
  omega

theorem key_mem_commit (hu : w.updates = []) (hd : ∀ id ∈ w.deletes, id < t.nextId) {k : ℕ}
    (hk : k < w.inserts.length) : ∃ a, (t.nextId + k, a) ∈ (w.commit t).rows := by
  have hsome : (w.inserts.map Prod.snd)[k]? = some (w.inserts[k]).2 := by
    rw [List.getElem?_map, List.getElem?_eq_getElem hk, Option.map_some]
  refine ⟨(w.inserts[k]).2, (mem_commit hu).mpr ⟨.inr ⟨k, hsome, rfl⟩, ?_⟩⟩
  intro hdel
  have := hd _ hdel
  omega

theorem commit_nextId (hu : w.updates = []) :
    (w.commit t).nextId = t.nextId + w.inserts.length := by
  rw [commit, hu, deleteAll_nextId, updateAll, List.foldl_nil, insertAll_nextId, List.length_map]

end UnitOfWork
