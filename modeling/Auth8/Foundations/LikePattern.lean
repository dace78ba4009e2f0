import Auth8.Foundations.Unicode
import Mathlib.Computability.Language

/-! # SQL LIKE

A pattern is a list of tokens: a character to match exactly, any one character, any sequence. `isMatch`
is the usual backtracking matcher, and `isMatch_iff` says that it decides the language the tokens
denote. `like` reads a pattern with `%`, `_` and an escape character: the character after the escape is
matched exactly, and a pattern that ends in the escape is invalid, so that the comparison is NULL. -/
namespace LikePattern
open Unicode
set_option autoImplicit false

variable {α : Type*}

inductive Token (α : Type*) where
  | lit (c : α)
  | one
  | many
  deriving DecidableEq, Repr

def Token.language : Token α → Language α
  | .lit c => {[c]}
  | .one => {x | ∃ c, x = [c]}
  | .many => ⊤

/-- The sequences a pattern stands for. -/
def language (ts : List (Token α)) : Language α := (ts.map Token.language).prod

def isMatch [DecidableEq α] : List (Token α) → List α → Bool
  | [], x => x.isEmpty
  | .lit c :: ts, x =>
    match x with
    | [] => false
    | d :: x => decide (c = d) && isMatch ts x
  | .one :: ts, x =>
    match x with
    | [] => false
    | _ :: x => isMatch ts x
  | .many :: ts, x => x.tails.any (isMatch ts)

theorem mem_language_lit {c : α} {x : List α} : x ∈ (Token.lit c).language ↔ x = [c] := Iff.rfl

theorem mem_language_one {x : List α} : x ∈ (Token.one : Token α).language ↔ ∃ c, x = [c] := Iff.rfl

theorem mem_language_nil {x : List α} : x ∈ language ([] : List (Token α)) ↔ x = [] := Iff.rfl

theorem mem_language_cons {t : Token α} {ts : List (Token α)} {x : List α} :
    x ∈ language (t :: ts) ↔ ∃ u ∈ t.language, ∃ v ∈ language ts, u ++ v = x := by
  rw [language, List.map_cons, List.prod_cons, Language.mem_mul]
  rfl

theorem mem_language_lit_cons {c : α} {ts : List (Token α)} {x : List α} :
    x ∈ language (.lit c :: ts) ↔ ∃ v ∈ language ts, x = c :: v := by
  rw [mem_language_cons]
  constructor
  · rintro ⟨u, hu, v, hv, rfl⟩
    rw [mem_language_lit.mp hu]
    exact ⟨v, hv, rfl⟩
  · rintro ⟨v, hv, rfl⟩
    exact ⟨[c], rfl, v, hv, rfl⟩

theorem mem_language_one_cons {ts : List (Token α)} {x : List α} :
    x ∈ language (.one :: ts) ↔ ∃ c, ∃ v ∈ language ts, x = c :: v := by
  rw [mem_language_cons]
  constructor
  · rintro ⟨u, hu, v, hv, rfl⟩
    obtain ⟨c, rfl⟩ := mem_language_one.mp hu
    exact ⟨c, v, hv, rfl⟩
  · rintro ⟨c, v, hv, rfl⟩
    exact ⟨[c], ⟨c, rfl⟩, v, hv, rfl⟩

theorem mem_language_many_cons {ts : List (Token α)} {x : List α} :
    x ∈ language (.many :: ts) ↔ ∃ v ∈ language ts, v <:+ x := by
  rw [mem_language_cons]
  constructor
  · rintro ⟨u, _, v, hv, rfl⟩
    exact ⟨v, hv, List.suffix_append u v⟩
  · rintro ⟨v, hv, u, hu⟩
    exact ⟨u, trivial, v, hv, hu⟩

theorem isMatch_iff [DecidableEq α] (ts : List (Token α)) (x : List α) :
    isMatch ts x = true ↔ x ∈ language ts := by
  induction ts generalizing x with
  | nil => rw [isMatch, List.isEmpty_iff, mem_language_nil]
  | cons t ts ih =>
    cases t with
    | lit c =>
      rw [mem_language_lit_cons]
      cases x with
      | nil => simp [isMatch]
      | cons d x =>
        simp only [isMatch, Bool.and_eq_true, decide_eq_true_eq, ih, List.cons.injEq]
        constructor
        · rintro ⟨rfl, hx⟩
          exact ⟨x, hx, rfl, rfl⟩
        · rintro ⟨v, hv, rfl, rfl⟩
          exact ⟨rfl, hv⟩
    | one =>
      rw [mem_language_one_cons]
      cases x with
      | nil => simp [isMatch]
      | cons d x => simp [isMatch, ih]
    | many =>
      rw [mem_language_many_cons]
      simp [isMatch, ih, and_comm]

theorem mem_language_map_lit {x y : List α} : x ∈ language (y.map Token.lit) ↔ x = y := by
  induction y generalizing x with
  | nil => rw [List.map_nil, mem_language_nil]
  | cons c y ih =>
    rw [List.map_cons, mem_language_lit_cons]
    constructor
    · rintro ⟨v, hv, rfl⟩
      rw [ih.mp hv]
    · rintro rfl
      exact ⟨y, ih.mpr rfl, rfl⟩

/-! ## Reading a pattern -/

/-- The characters of a pattern that do not stand for themselves. -/
structure Special (α : Type*) where
  escape : α
  many : α
  one : α

/-- The tokens of a pattern; none where it ends in the escape character. -/
def parse [DecidableEq α] (special : Special α) : List α → Option (List (Token α))
  | [] => some []
  | c :: cs =>
    if c = special.escape then
      match cs with
      | [] => none
      | d :: cs => (parse special cs).map (.lit d :: ·)
    else
      (parse special cs).map
        ((if c = special.many then .many else if c = special.one then .one else .lit c) :: ·)

def Special.IsPlain (special : Special α) (c : α) : Prop :=
  c ≠ special.escape ∧ c ≠ special.many ∧ c ≠ special.one

theorem parse_plain [DecidableEq α] {special : Special α} {cs : List α}
    (h : ∀ c ∈ cs, special.IsPlain c) : parse special cs = some (cs.map Token.lit) := by
  induction cs with
  | nil => rfl
  | cons c cs ih =>
    obtain ⟨h1, h2, h3⟩ := h c List.mem_cons_self
    have hcs := ih fun d hd => h d (List.mem_cons_of_mem c hd)
    rw [parse.eq_def]
    simp [h1, h2, h3, hcs]

/-! ## Texts -/

def unit (c : Char) : CodeUnit := BitVec.ofNat 16 c.toNat

def special : Special CodeUnit := ⟨unit '\\', unit '%', unit '_'⟩

/-- `value LIKE pattern` with the backslash as escape character, where NULL counts as no match. The
characters compared are code units. -/
def like (pattern value : String) : Bool :=
  match parse special (codeUnits pattern.toList) with
  | none => false
  | some ts => isMatch ts (codeUnits value.toList)

/-- The character stands for itself in a pattern. -/
def isPlain (c : Char) : Bool := !(c = '\\' || c = '%' || c = '_')

theorem isPlain_units {c : Char} (h : isPlain c = true) : ∀ u ∈ utf16 c, special.IsPlain u := by
  have hplain : ¬ c = '\\' ∧ ¬ c = '%' ∧ ¬ c = '_' := by simpa [isPlain, and_assoc] using h
  have hne : ∀ d : Char, d.toNat < 128 → ¬ c = d → ∀ u ∈ utf16 c, u ≠ unit d := by
    intro d hd hcd u hu
    have hc := toNat_lt c
    rcases Nat.lt_or_ge c.toNat 65536 with hlow | hhigh
    · rw [utf16_one hlow, List.mem_singleton] at hu
      rw [hu, unit, ne_eq, ofNat_eq_iff hlow (by omega)]
      exact fun heq => hcd (Char.toNat_inj.mp heq)
    · rw [utf16_two hhigh, List.mem_cons, List.mem_singleton] at hu
      rcases hu with rfl | rfl
      · rw [unit, ne_eq, ofNat_eq_iff (by omega) (by omega)]
        omega
      · rw [unit, ne_eq, ofNat_eq_iff (by omega) (by omega)]
        omega
  intro u hu
  exact ⟨hne _ (by decide) hplain.1 u hu, hne _ (by decide) hplain.2.1 u hu,
    hne _ (by decide) hplain.2.2 u hu⟩

/-- A pattern of plain characters matches itself only. -/
theorem like_plain {pattern : String} (h : ∀ c ∈ pattern.toList, isPlain c = true) (value : String) :
    like pattern value = true ↔ pattern = value := by
  have hunits : ∀ u ∈ codeUnits pattern.toList, special.IsPlain u := by
    intro u hu
    obtain ⟨c, hc, hcu⟩ := List.mem_flatMap.mp hu
    exact isPlain_units (h c hc) u hcu
  rw [like, parse_plain hunits]
  change isMatch _ _ = true ↔ _
  rw [isMatch_iff, mem_language_map_lit, codeUnits_injective.eq_iff, String.toList_inj, eq_comm]

end LikePattern
