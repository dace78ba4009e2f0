import Mathlib.Data.List.Basic
import Mathlib.Tactic.Common

/-! # The indentation of a response

`formatXML` of the documentation page breaks a text between two tags that follow each other, and indents
every line by the elements that are open. -/
namespace Auth8.Playground
set_option autoImplicit false

/-! ## The patterns -/

/-- `\w` -/
def isWord (c : Char) : Bool := c.isAlphanum || decide (c = '_')

/-- What `.` does not match. -/
def isLineTerminator (c : Char) : Bool :=
  ['\n', '\r', Char.ofNat 0x2028, Char.ofNat 0x2029].contains c

def beforeClose (chars : List Char) : List Char := chars.takeWhile fun c => decide (c ≠ '>')

def fromClose (chars : List Char) : List Char := chars.dropWhile fun c => decide (c ≠ '>')

/-- `^<\/\w[^>]*>$` -/
def isEndTag : List Char → Bool
  | '<' :: '/' :: c :: rest => isWord c && decide (fromClose rest = ['>'])
  | _ => false

/-- `.+<\/\w[^>]*>$`, of which `.+` needs one character. -/
def matchesInline : List Char → Bool
  | [] => false
  | c :: rest => (!isLineTerminator c && isEndTag rest) || matchesInline rest

/-- `^<\/\w` -/
def matchesClosing : List Char → Bool
  | '<' :: '/' :: c :: _ => isWord c
  | _ => false

/-- `[^>]*[^\/]>.*$`, where `[^\/]` may be a `>` as well. -/
def matchesTagEnd (chars : List Char) : Bool :=
  match fromClose chars with
  | [] => false
  | _ :: after =>
    ((beforeClose chars).getLast?.any (fun c => decide (c ≠ '/')) && !after.any isLineTerminator) ||
      match after with
      | '>' :: rest => !rest.any isLineTerminator
      | _ => false

/-- `^<\w[^>]*[^\/]>.*$` -/
def matchesOpening : List Char → Bool
  | '<' :: c :: rest => isWord c && matchesTagEnd rest
  | _ => false

/-! ## The function -/

def crlf : List Char := ['\r', '\n']

/-- `xml.replace(reg, '$1\r\n$2$3')`; the slashes after the `<` are put back as they are. -/
def breakTags : List Char → List Char
  | [] => []
  | c :: rest =>
    if c = '>' ∧ rest.head? = some '<' then c :: (crlf ++ breakTags rest) else c :: breakTags rest

/-- `split('\r\n')` -/
def splitLines : List Char → List (List Char)
  | '\r' :: '\n' :: rest => [] :: splitLines rest
  | c :: rest =>
    match splitLines rest with
    | line :: lines => (c :: line) :: lines
    | [] => [[c]]
  | [] => [[]]

/-- The padding of a line, and by how much more the lines after it are padded. -/
def nodePad (pad : ℕ) (node : List Char) : ℕ × ℕ :=
  if matchesInline node then (pad, 0)
  else if matchesClosing node then (if pad ≠ 0 then pad - 1 else pad, 0)
  else if matchesOpening node then (pad, 1)
  else (pad, 0)

/-- One turn of the loop over the lines. -/
def formatNode (s : List Char × ℕ) (node : List Char) : List Char × ℕ :=
  let pad := nodePad s.2 node
  (s.1 ++ (List.replicate (2 * pad.1) ' ' ++ (node ++ crlf)), pad.1 + pad.2)

def formatXML (xml : List Char) : List Char := ((splitLines (breakTags xml)).foldl formatNode ([], 0)).1

/-! ## What is added -/

/-- The text without its blanks and line breaks. -/
def visible (text : List Char) : List Char := text.filter fun c => !([' ', '\r', '\n'].contains c)

theorem visible_append (front back : List Char) : visible (front ++ back) = visible front ++ visible back :=
  List.filter_append ..

theorem visible_cons (c : Char) (rest : List Char) : visible (c :: rest) = visible [c] ++ visible rest :=
  visible_append [c] rest

theorem visible_crlf : visible crlf = [] := by decide

theorem visible_breakTags (text : List Char) : visible (breakTags text) = visible text := by
  induction text with
  | nil => rfl
  | cons c rest ih =>
    rw [breakTags, visible_cons c rest]
    split
    · rw [visible_cons, visible_append, visible_crlf, List.nil_append, ih]
    · rw [visible_cons, ih]

theorem splitLines_ne_nil (text : List Char) : splitLines text ≠ [] := by
  rw [splitLines.eq_def]
  split
  · simp
  · split <;> simp
  · simp

theorem visible_splitLines (text : List Char) : visible (splitLines text).flatten = visible text := by
  induction text using splitLines.induct with
  | case1 rest ih =>
    rw [splitLines, List.flatten_cons, List.nil_append, ih]
    rfl
  | case2 c rest hnot line lines hlines ih =>
    rw [splitLines.eq_2 _ _ hnot, hlines, visible_cons c rest, ← ih, hlines, List.flatten_cons,
      List.flatten_cons, List.cons_append, visible_cons]
  | case3 c rest hnot hnil ih => exact absurd hnil (splitLines_ne_nil rest)
  | case4 => rfl

theorem visible_replicate (n : ℕ) : visible (List.replicate n ' ') = [] := by
  rw [visible, List.filter_eq_nil_iff]
  intro c hc
  obtain rfl := List.eq_of_mem_replicate hc
  decide

theorem visible_foldl (nodes : List (List Char)) (s : List Char × ℕ) :
    visible (nodes.foldl formatNode s).1 = visible s.1 ++ visible nodes.flatten := by
  induction nodes generalizing s with
  | nil => exact (List.append_nil _).symm
  | cons node nodes ih =>
    rw [List.foldl_cons, ih, formatNode, List.flatten_cons]
    simp only [visible_append, visible_replicate, visible_crlf, List.nil_append, List.append_nil,
      List.append_assoc]

/-- Whatever the text, only blanks and line breaks are added or taken away. -/
theorem formatXML_visible (xml : List Char) : visible (formatXML xml) = visible xml := by
  rw [formatXML, visible_foldl, visible_splitLines, visible_breakTags]
  rfl

/-! ## Markup -/

/-- A sequence of leaves, each of which is one line, and of elements with content. -/
inductive Markup where
  | nil
  | leaf (line : List Char) (rest : Markup)
  | element (tag name : List Char) (content rest : Markup)
  deriving Repr

def startTag (tag : List Char) : List Char := '<' :: (tag ++ ['>'])

def endTag (name : List Char) : List Char := '<' :: '/' :: (name ++ ['>'])

/-- The tags and the leaves in their order. -/
def Markup.lines : Markup → List (List Char)
  | .nil => []
  | .leaf line rest => line :: rest.lines
  | .element tag name content rest => startTag tag :: (content.lines ++ endTag name :: rest.lines)

def Markup.source (m : Markup) : List Char := m.lines.flatten

/-- One line between angle brackets. -/
structure Line (line : List Char) : Prop where
  first : line.head? = some '<'
  last : line.getLast? = some '>'
  whole : breakTags line = line
  noReturn : '\r' ∉ line

/-- A line that is not taken for a tag of an element with content. -/
structure Leaf (line : List Char) : Prop extends Line line where
  inline : matchesInline line = true ∨ matchesClosing line = false ∧ matchesOpening line = false

/-- The characters between the brackets of a tag. -/
structure TagText (text : List Char) : Prop where
  word : text.head?.any isWord = true
  less : '<' ∉ text
  greater : '>' ∉ text
  terminator : text.any isLineTerminator = false

/-- At least two characters, the last of which is no slash. -/
structure OpenTag (tag : List Char) : Prop extends TagText tag where
  second : tag.tail.getLast?.any (fun c => decide (c ≠ '/')) = true

/-- The forms of a leaf: an element with a text in it, an empty element, a comment or a declaration. -/
inductive LeafForm : List Char → Prop
  | text {tag name : List Char} (content : List Char) (htag : TagText tag) (hname : TagText name)
      (hless : '<' ∉ content) (hlast : content.getLast?.any (fun c => decide (c ≠ '>')) = true)
      (hterminator : content.any isLineTerminator = false) :
      LeafForm (startTag tag ++ (content ++ endTag name))
  | empty {tag : List Char} (htag : TagText tag) : LeafForm (startTag (tag ++ ['/']))
  | mark {c : Char} {inner : List Char} (hc : c = '!' ∨ c = '?') (hless : '<' ∉ inner)
      (hterminator : inner.any isLineTerminator = false) : LeafForm (startTag (c :: inner))

def Markup.WellFormed : Markup → Prop
  | .nil => True
  | .leaf line rest => Leaf line ∧ rest.WellFormed
  | .element tag name content rest =>
    OpenTag tag ∧ TagText name ∧ content.WellFormed ∧ rest.WellFormed

/-! ## The lines -/

theorem breakTags_of_not_mem {rest : List Char} (h : '<' ∉ rest) (c : Char) :
    breakTags (c :: rest) = c :: rest := by
  have hhead : rest.head? ≠ some '<' := fun hhead => h (List.mem_of_mem_head? hhead)
  rw [breakTags, if_neg fun hboth => hhead hboth.2]
  induction rest generalizing c with
  | nil => rfl
  | cons d rest ih =>
    rw [List.mem_cons, not_or] at h
    have hnext : rest.head? ≠ some '<' := fun hnext => h.2 (List.mem_of_mem_head? hnext)
    rw [breakTags, if_neg fun hboth => hnext hboth.2]
    exact congrArg (c :: ·) (ih h.2 d hnext)

variable {tag name text : List Char}

theorem noReturn_of_any (h : text.any isLineTerminator = false) : '\r' ∉ text := by
  intro hmem
  have hany := List.any_eq_false.mp h '\r' hmem
  exact hany (by decide)

theorem TagText.noReturn (h : TagText text) : '\r' ∉ text := noReturn_of_any h.terminator

theorem TagText.exists_cons (h : TagText text) : ∃ c rest, text = c :: rest ∧ isWord c = true := by
  cases text with
  | nil => cases h.word
  | cons c rest => exact ⟨c, rest, rfl, h.word⟩

theorem not_mem_concat {c : Char} (h : c ∉ text) (hc : c ≠ '>') : c ∉ text ++ ['>'] := by
  rw [List.mem_append, List.mem_singleton, not_or]
  exact ⟨h, hc⟩

theorem line_of_brackets {inner : List Char} (hless : '<' ∉ inner) (hreturn : '\r' ∉ inner) :
    Line ('<' :: (inner ++ ['>'])) where
  first := rfl
  last := by rw [← List.cons_append, List.getLast?_append]; rfl
  whole := breakTags_of_not_mem (not_mem_concat hless (by decide)) '<'
  noReturn := by
    rw [List.mem_cons, not_or]
    exact ⟨by decide, not_mem_concat hreturn (by decide)⟩

theorem ne_close {rest : List Char} (h : '>' ∉ rest) : ∀ d ∈ rest, decide (d ≠ '>') = true := by
  intro d hd
  rw [decide_eq_true_iff]
  rintro rfl
  exact h hd

theorem beforeClose_concat {rest : List Char} (h : '>' ∉ rest) : beforeClose (rest ++ ['>']) = rest := by
  rw [beforeClose, List.takeWhile_append_of_pos (ne_close h), List.takeWhile_cons_of_neg (by decide),
    List.append_nil]

theorem fromClose_concat {rest : List Char} (h : '>' ∉ rest) : fromClose (rest ++ ['>']) = ['>'] := by
  rw [fromClose, List.dropWhile_append_of_pos (ne_close h), List.dropWhile_cons_of_neg (by decide)]

theorem matchesClosing_of_ne {c : Char} (hc : c ≠ '/') (rest : List Char) :
    matchesClosing ('<' :: c :: rest) = false := by
  rw [matchesClosing.eq_def]
  split
  · rename_i heq
    exact absurd (List.cons.inj (List.cons.inj heq).2).1 hc
  · rfl

theorem ne_slash_of_isWord {c : Char} (h : isWord c = true) : c ≠ '/' := by
  rintro rfl
  cases h

theorem OpenTag.line (h : OpenTag tag) : Line (startTag tag) := line_of_brackets h.less h.noReturn

theorem TagText.line (h : TagText name) : Line (endTag name) := by
  have hless : '<' ∉ '/' :: name := by
    rw [List.mem_cons, not_or]
    exact ⟨by decide, h.less⟩
  have hreturn : '\r' ∉ '/' :: name := by
    rw [List.mem_cons, not_or]
    exact ⟨by decide, h.noReturn⟩
  exact line_of_brackets hless hreturn

theorem breakTags_of_ne {front back : List Char}
    (h : front.getLast?.any (fun c => decide (c ≠ '>')) = true) :
    breakTags (front ++ back) = breakTags front ++ breakTags back := by
  induction front with
  | nil => rfl
  | cons c front ih =>
    cases front with
    | nil =>
      have hc : c ≠ '>' := of_decide_eq_true h
      rw [List.singleton_append, breakTags, breakTags, if_neg fun hboth => hc hboth.1,
        if_neg fun hboth => hc hboth.1]
      rfl
    | cons d front =>
      have hrest := ih h
      have hhead : (d :: front ++ back).head? = (d :: front).head? := rfl
      rw [List.cons_append, breakTags, breakTags, hhead, hrest]
      split
      · simp only [List.cons_append, List.append_assoc]
      · simp only [List.cons_append]

theorem isEndTag_endTag (h : TagText name) : isEndTag (endTag name) = true := by
  obtain ⟨c, rest, rfl, hword⟩ := h.exists_cons
  have hgreater : '>' ∉ rest := fun hmem => h.greater (List.mem_cons_of_mem c hmem)
  show (isWord c && decide (fromClose (rest ++ ['>']) = ['>'])) = true
  rw [hword, fromClose_concat hgreater]
  rfl

/-- A character in front of an end tag is enough. -/
theorem matchesInline_append (front : List Char) {c : Char} (hc : isLineTerminator c = false)
    (h : TagText name) : matchesInline (front ++ c :: endTag name) = true := by
  induction front with
  | nil =>
    rw [List.nil_append, matchesInline, hc, isEndTag_endTag h]
    rfl
  | cons d front ih =>
    rw [List.cons_append, matchesInline, ih, Bool.or_true]

/-- None of the forms is taken for a tag that opens or closes an element. -/
theorem LeafForm.leaf {line : List Char} (h : LeafForm line) : Leaf line := by
  cases h with
  | @text tag name content htag hname hless hlast hterminator =>
    obtain ⟨front, c, rfl⟩ : ∃ front c, content = front ++ [c] := by
      cases hcontent : content.getLast? with
      | none =>
        rw [hcontent] at hlast
        cases hlast
      | some c => exact ⟨content.dropLast, c, (List.dropLast_append_getLast? c hcontent).symm⟩
    have hc : isLineTerminator c = false := by
      rw [← Bool.not_eq_true]
      exact List.any_eq_false.mp hterminator c (List.mem_append_right _ List.mem_cons_self)
    have hclose := hname.line
    have hopen : '<' ∉ tag ++ '>' :: (front ++ [c]) := by
      rw [List.mem_append, List.mem_cons, not_or, not_or]
      exact ⟨htag.less, by decide, hless⟩
    have hstart : startTag tag ++ (front ++ [c]) = '<' :: (tag ++ '>' :: (front ++ [c])) := by
      rw [startTag, List.cons_append, List.append_assoc]
      rfl
    refine ⟨⟨rfl, ?_, ?_, ?_⟩, .inl ?_⟩
    · rw [← List.append_assoc, List.getLast?_append, hclose.last]
      rfl
    · rw [← List.append_assoc, breakTags_of_ne, hclose.whole, hstart, breakTags_of_not_mem hopen]
      rw [List.getLast?_concat] at hlast
      rw [List.getLast?_append, List.getLast?_concat]
      exact hlast
    · rw [List.mem_append, List.mem_append, not_or, not_or]
      refine ⟨?_, noReturn_of_any hterminator, hclose.noReturn⟩
      rw [startTag, List.mem_cons, not_or]
      exact ⟨by decide, not_mem_concat htag.noReturn (by decide)⟩
    · rw [List.append_assoc, List.singleton_append, ← List.append_assoc]
      exact matchesInline_append _ hc hname
  | @empty tag htag =>
    have hslash : ∀ c, c ∉ tag → c ≠ '/' → c ∉ tag ++ ['/'] := by
      intro c hc hne
      rw [List.mem_append, List.mem_singleton, not_or]
      exact ⟨hc, hne⟩
    refine ⟨line_of_brackets (hslash _ htag.less (by decide)) (hslash _ htag.noReturn (by decide)),
      .inr ?_⟩
    obtain ⟨c, rest, rfl, hword⟩ := htag.exists_cons
    have hgreater : '>' ∉ rest ++ ['/'] := fun hmem =>
      hslash _ htag.greater (by decide) (List.mem_cons_of_mem c hmem)
    refine ⟨matchesClosing_of_ne (ne_slash_of_isWord hword) _, ?_⟩
    show (isWord c && matchesTagEnd (rest ++ ['/'] ++ ['>'])) = false
    have hend : matchesTagEnd (rest ++ ['/'] ++ ['>']) = false := by
      rw [matchesTagEnd, fromClose_concat hgreater, beforeClose_concat hgreater]
      simp
    rw [hend, Bool.and_false]
  | @mark c inner hc hless hterminator =>
    have hmark : c ≠ '<' ∧ c ≠ '/' ∧ c ≠ '\r' ∧ isWord c = false := by
      rcases hc with rfl | rfl <;> decide
    obtain ⟨hc1, hc2, hc3, hword⟩ := hmark
    refine ⟨line_of_brackets ?_ ?_, .inr ⟨matchesClosing_of_ne hc2 _, ?_⟩⟩
    · rw [List.mem_cons, not_or]
      exact ⟨Ne.symm hc1, hless⟩
    · rw [List.mem_cons, not_or]
      exact ⟨Ne.symm hc3, noReturn_of_any hterminator⟩
    · show (isWord c && matchesTagEnd (inner ++ ['>'])) = false
      rw [hword, Bool.false_and]

/-! ## The whole text -/

end Auth8.Playground
