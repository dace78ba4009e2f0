import Mathlib.Data.List.Basic
import Mathlib.Tactic.Common

/-! # Paths with placeholders

The documentation page fills the placeholders `{name}` of a path by calls of `String.replace`, which takes
the first occurrence and reads `$$`, `$&`, `` $` `` and `$'` in what it puts there as patterns. -/
namespace Auth8.Playground
set_option autoImplicit false

/-! ## `String.replace` -/

/-- What stands before and after the first occurrence of the pattern. -/
def findFirst (pattern : List Char) : List Char → Option (List Char × List Char)
  | [] => if pattern = [] then some ([], []) else none
  | c :: text =>
    if pattern.isPrefixOf (c :: text) then some ([], (c :: text).drop pattern.length)
    else (findFirst pattern text).map fun found => (c :: found.1, found.2)

/-- The replacement, with its patterns expanded. -/
def expand (before matched after : List Char) : List Char → List Char
  | [] => []
  | c :: rest =>
    if c = '$' then
      match rest with
      | [] => ['$']
      | d :: rest' =>
        if d = '$' then '$' :: expand before matched after rest'
        else if d = '&' then matched ++ expand before matched after rest'
        else if d = Char.ofNat 96 then before ++ expand before matched after rest'
        else if d = Char.ofNat 39 then after ++ expand before matched after rest'
        else '$' :: expand before matched after (d :: rest')
    else c :: expand before matched after rest

def replace (text pattern replacement : List Char) : List Char :=
  match findFirst pattern text with
  | none => text
  | some (before, after) => before ++ expand before pattern after replacement ++ after

def placeholder (name : List Char) : List Char := '{' :: (name ++ ['}'])

/-- The loop over the inputs of the path parameters. -/
def replacePath (path : List Char) (inputs : List (List Char × List Char)) : List Char :=
  inputs.foldl (fun path input => replace path (placeholder input.1) input.2) path

/-! ## Templates -/

inductive Piece where
  | text (chars : List Char)
  | hole (name : List Char)
  deriving DecidableEq, Repr

def Piece.render : Piece → List Char
  | .text chars => chars
  | .hole name => placeholder name

def render (template : List Piece) : List Char := template.flatMap Piece.render

def Piece.assign (name value : List Char) : Piece → Piece
  | .text chars => .text chars
  | .hole other => if other = name then .text value else .hole other

/-- Text has no opening brace, and names have no braces. -/
def Piece.WellFormed : Piece → Prop
  | .text chars => '{' ∉ chars
  | .hole name => '{' ∉ name ∧ '}' ∉ name

/-! ## One replacement -/

theorem expand_plain {replacement : List Char} (h : '$' ∉ replacement) (before matched after : List Char) :
    expand before matched after replacement = replacement := by
  induction replacement with
  | nil => rfl
  | cons c rest ih =>
    rw [List.mem_cons, not_or] at h
    rw [expand.eq_def]
    simp only [if_neg (Ne.symm h.1), ih h.2]

theorem not_placeholder_of_ne {name : List Char} {c : Char} {text : List Char} (hc : c ≠ '{') :
    (placeholder name).isPrefixOf (c :: text) = false := by
  simp [placeholder, List.isPrefixOf, Ne.symm hc]

/-- Text without an opening brace is passed over. -/
theorem findFirst_append {name front : List Char} (hfront : '{' ∉ front) (rest : List Char) :
    findFirst (placeholder name) (front ++ rest) =
      (findFirst (placeholder name) rest).map fun found => (front ++ found.1, found.2) := by
  induction front with
  | nil => simp
  | cons c front ih =>
    rw [List.mem_cons, not_or] at hfront
    rw [List.cons_append, findFirst, not_placeholder_of_ne (Ne.symm hfront.1), ih hfront.2, Option.map_map]
    rfl

theorem findFirst_placeholder (name rest : List Char) :
    findFirst (placeholder name) (placeholder name ++ rest) = some ([], rest) := by
  have hprefix : (placeholder name).isPrefixOf (placeholder name ++ rest) = true :=
    List.isPrefixOf_iff_prefix.mpr (List.prefix_append _ _)
  have hcons : placeholder name ++ rest = '{' :: (name ++ ['}'] ++ rest) := rfl
  rw [hcons] at hprefix ⊢
  rw [findFirst, if_pos hprefix, ← hcons, List.drop_left]

/-- Names without a closing brace are found as a whole only. -/
theorem eq_of_placeholder {name other rest : List Char} (hname : '}' ∉ name) (hother : '}' ∉ other)
    (h : name ++ ['}'] <+: other ++ '}' :: rest) : name = other := by
  induction name generalizing other with
  | nil =>
    cases other with
    | nil => rfl
    | cons d other =>
      rw [List.nil_append, List.cons_append, List.cons_prefix_cons] at h
      exact absurd (h.1 ▸ List.mem_cons_self) hother
  | cons c name ih =>
    rw [List.mem_cons, not_or] at hname
    cases other with
    | nil =>
      rw [List.nil_append, List.cons_append, List.cons_prefix_cons] at h
      exact absurd h.1.symm hname.1
    | cons d other =>
      rw [List.mem_cons, not_or] at hother
      rw [List.cons_append, List.cons_append, List.cons_prefix_cons] at h
      rw [h.1, ih hname.2 hother.2 h.2]

variable {name value : List Char} {template : List Piece}

/-- Pieces that are not the placeholder itself are passed over. -/
theorem findFirst_render {front : List Piece} (hwf : ∀ p ∈ front, p.WellFormed) (hname : '}' ∉ name)
    (hnot : Piece.hole name ∉ front) (rest : List Char) :
    findFirst (placeholder name) (render front ++ rest) =
      (findFirst (placeholder name) rest).map fun found => (render front ++ found.1, found.2) := by
  induction front with
  | nil => simp [render]
  | cons p front ih =>
    rw [List.mem_cons, not_or] at hnot
    have hpiece := hwf p List.mem_cons_self
    have hrest := ih (fun q hq => hwf q (List.mem_cons_of_mem p hq)) hnot.2
    have hrender : render (p :: front) = p.render ++ render front := List.flatMap_cons
    have hpass : findFirst (placeholder name) (p.render ++ (render front ++ rest)) =
        (findFirst (placeholder name) (render front ++ rest)).map fun found =>
          (p.render ++ found.1, found.2) := by
      cases p with
      | text chars => exact findFirst_append hpiece _
      | hole other =>
        have hother : '{' ∉ other ++ ['}'] := by
          rw [List.mem_append, not_or]
          exact ⟨hpiece.1, by decide⟩
        have hprefix : ¬ (placeholder name).isPrefixOf
            ('{' :: (other ++ ['}'] ++ (render front ++ rest))) = true := by
          intro h
          rw [List.isPrefixOf_iff_prefix, placeholder, List.cons_prefix_cons, List.append_assoc] at h
          exact hnot.1 (congrArg Piece.hole (eq_of_placeholder hname hpiece.2 h.2))
        have hcons : (Piece.hole other).render ++ (render front ++ rest) =
            '{' :: (other ++ ['}'] ++ (render front ++ rest)) := rfl
        rw [hcons, findFirst, if_neg hprefix, findFirst_append hother, Option.map_map]
        rfl
    rw [hrender, List.append_assoc, hpass, hrest, Option.map_map]
    simp only [Function.comp_def, List.append_assoc]

theorem map_assign_of_not_mem (hnot : Piece.hole name ∉ template) :
    template.map (Piece.assign name value) = template := by
  refine List.map_congr_left (g := id) (fun p hp => ?_) |>.trans (List.map_id _)
  cases p with
  | text chars => rfl
  | hole other =>
    refine if_neg fun heq => hnot ?_
    rw [← heq]
    exact hp

/-- A replacement fills the placeholder. -/
theorem replace_render (hwf : ∀ p ∈ template, p.WellFormed) (hname : '}' ∉ name)
    (hvalue : '$' ∉ value) (hcount : template.count (.hole name) ≤ 1) :
    replace (render template) (placeholder name) value =
      render (template.map (Piece.assign name value)) := by
  by_cases hmem : Piece.hole name ∈ template
  · obtain ⟨front, back, rfl⟩ := List.append_of_mem hmem
    rw [List.count_append, List.count_cons_self] at hcount
    have hfront : Piece.hole name ∉ front := List.count_eq_zero.mp (by omega)
    have hback : Piece.hole name ∉ back := List.count_eq_zero.mp (by omega)
    have hrender : render (front ++ .hole name :: back) =
        render front ++ (placeholder name ++ render back) := by
      simp [render, Piece.render]
    have hfound : findFirst (placeholder name) (render (front ++ .hole name :: back)) =
        some (render front, render back) := by
      rw [hrender, findFirst_render (fun p hp => hwf p (List.mem_append_left _ hp)) hname hfront,
        findFirst_placeholder]
      simp
    rw [replace, hfound, List.map_append, List.map_cons, map_assign_of_not_mem hfront,
      map_assign_of_not_mem hback]
    simp [expand_plain hvalue, render, Piece.assign, Piece.render]
  · have hfound := findFirst_render hwf hname hmem []
    have hnil : findFirst (placeholder name) [] = none := rfl
    rw [hnil, List.append_nil] at hfound
    rw [replace, hfound, map_assign_of_not_mem hmem]
    rfl

/-! ## All of them -/

/-- A name without braces, and a value without an opening brace and without a dollar sign. -/
structure Fillable (input : List Char × List Char) : Prop where
  openBrace : '{' ∉ input.1
  closeBrace : '}' ∉ input.1
  value : '{' ∉ input.2
  dollar : '$' ∉ input.2

/-- Text as it is, and the value of the first input with the name of the placeholder. -/
def Piece.fill (inputs : List (List Char × List Char)) : Piece → List Char
  | .text chars => chars
  | .hole name =>
    match inputs.find? fun input => decide (input.1 = name) with
    | some input => input.2
    | none => placeholder name

theorem Piece.WellFormed.assign {p : Piece} (h : p.WellFormed) (hvalue : '{' ∉ value) :
    (p.assign name value).WellFormed := by
  cases p with
  | text chars => exact h
  | hole other =>
    rw [Piece.assign]
    split
    · exact hvalue
    · exact h

theorem count_assign_le (other : List Char) :
    (template.map (Piece.assign name value)).count (.hole other) ≤ template.count (.hole other) := by
  induction template with
  | nil => exact Nat.le_refl 0
  | cons p template ih =>
    rw [List.map_cons, List.count_cons, List.count_cons]
    have hhead : (if p.assign name value == .hole other then 1 else 0) ≤
        if p == Piece.hole other then 1 else 0 := by
      cases p with
      | text chars => exact Nat.le_refl _
      | hole m =>
        rw [Piece.assign]
        split
        · exact Nat.zero_le _
        · exact Nat.le_refl _
    omega

theorem fill_assign (input : List Char × List Char) (inputs : List (List Char × List Char)) (p : Piece) :
    (p.assign input.1 input.2).fill inputs = p.fill (input :: inputs) := by
  cases p with
  | text chars => rfl
  | hole other =>
    by_cases h : other = input.1
    · rw [Piece.assign, if_pos h, Piece.fill, Piece.fill,
        List.find?_cons_of_pos (by simpa using h.symm)]
    · rw [Piece.assign, if_neg h, Piece.fill, Piece.fill,
        List.find?_cons_of_neg (by simpa using Ne.symm h)]

/-- The page fills every placeholder with what was entered for it, whatever the order of the inputs. -/
theorem replacePath_render {inputs : List (List Char × List Char)}
    (hwf : ∀ p ∈ template, p.WellFormed) (hcount : ∀ name, template.count (.hole name) ≤ 1)
    (hinputs : ∀ input ∈ inputs, Fillable input) :
    replacePath (render template) inputs = template.flatMap (Piece.fill inputs) := by
  induction inputs generalizing template with
  | nil =>
    refine List.flatMap_congr fun p _ => ?_
    cases p <;> rfl
  | cons input inputs ih =>
    have hinput := hinputs input List.mem_cons_self
    have hassigned : ∀ p ∈ template.map (Piece.assign input.1 input.2), p.WellFormed := by
      intro p hp
      obtain ⟨q, hq, rfl⟩ := List.mem_map.mp hp
      exact (hwf q hq).assign hinput.value
    have hstep : replacePath (render template) (input :: inputs) =
        replacePath (render (template.map (Piece.assign input.1 input.2))) inputs := by
      rw [← replace_render hwf hinput.closeBrace hinput.dollar (hcount input.1)]
      rfl
    rw [hstep, ih hassigned (fun name => Nat.le_trans (count_assign_le name) (hcount name))
      fun d hd => hinputs d (List.mem_cons_of_mem input hd), List.flatMap_map]
    exact List.flatMap_congr fun p _ => fill_assign input inputs p

/-- The path of `wake`, with the inputs in the other order. -/
theorem replacePath_wake :
    replacePath "/v1/wake/{auth}/{requestId}".toList
        [("requestId".toList, "0000000000000000001".toList), ("auth".toList, "true".toList)] =
      "/v1/wake/true/0000000000000000001".toList := by
  have hwf : ∀ p ∈ [Piece.text "/v1/wake/".toList, .hole "auth".toList, .text ['/'],
      .hole "requestId".toList], p.WellFormed := by
    simp [Piece.WellFormed]
  have hcount : ∀ name, [Piece.text "/v1/wake/".toList, .hole "auth".toList, .text ['/'],
      .hole "requestId".toList].count (.hole name) ≤ 1 :=
    fun name => List.nodup_iff_count.mp (show List.Nodup _ by decide) (Piece.hole name)
  have hinputs : ∀ input ∈ [("requestId".toList, "0000000000000000001".toList),
      ("auth".toList, "true".toList)], Fillable input := by
    intro input hinput
    rw [List.mem_cons, List.mem_singleton] at hinput
    rcases hinput with rfl | rfl
    · exact ⟨by decide, by decide, by decide, by decide⟩
    · exact ⟨by decide, by decide, by decide, by decide⟩
  exact replacePath_render hwf hcount hinputs

end Auth8.Playground
