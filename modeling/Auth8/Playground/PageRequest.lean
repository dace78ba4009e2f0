import Auth8.Credentials.SignedRequests
import Auth8.Playground.Page

/-! # The requests of the documentation page, on the server

What is entered on the page arrives as it was entered, and a request of the page with the keys of a stored
user is signed. -/
namespace Auth8.Playground
open FormUrl Persistent Security Credentials
set_option autoImplicit false

/-- What a browser leaves as it is in the path and in the query of a URL. -/
def urlCharacter (c : Char) : Bool :=
  c.isAlphanum || ['-', '_', '.', '!', '~', '*', '(', ')', '/', ':', '@', '$', '&', '=', '+', ',', ';',
    '%', '?'].contains c

/-- What `encodeURIComponent` and a browser leave as it is. -/
def kept (c : Char) : Bool := unreserved c && urlCharacter c

/-- The segments that a browser takes for the directory itself or the one above it. -/
def isDotSegment (segment : List Char) : Bool :=
  [".".toList, "..".toList, "%2e".toList, ".%2e".toList, "%2e.".toList, "%2e%2e".toList].contains
    (segment.map Char.toLower)

/-- A path that is in the form to which a browser brings one. -/
structure NormalPath (path : List Char) : Prop where
  root : path.head? = some '/'
  characters : path.all urlCharacter = true
  noQuery : '?' ∉ path
  noDots : ∀ segment ∈ path.splitOn '/', isDotSegment segment = false

/-- The view of a request for a URL, once its path has been matched. -/
def arrive (path : String) (url : List Char) : Option UriInfo :=
  (parse (query url)).map fun queryParameters =>
    ⟨path, queryParameters, String.ofList url⟩

/-! ## Characters -/

theorem kept_unreserved {text : List Char} (h : text.all kept = true) :
    text.all unreserved = true := by
  rw [List.all_eq_true] at h ⊢
  exact fun c hc => (Bool.and_eq_true_iff.mp (h c hc)).1

theorem kept_url {text : List Char} (h : text.all kept = true) :
    text.all urlCharacter = true := by
  rw [List.all_eq_true] at h ⊢
  exact fun c hc => (Bool.and_eq_true_iff.mp (h c hc)).2

theorem safe_unreserved : Safe unreserved := by
  intro c hc
  constructor
  · rintro rfl
    revert hc
    decide
  · rintro rfl
    revert hc
    decide

theorem not_mem_of_kept {text : List Char} (h : text.all kept = true) {c : Char}
    (hc : kept c = false) : c ∉ text := by
  intro hmem
  have hkept := List.all_eq_true.mp h c hmem
  rw [hc] at hkept
  cases hkept

/-- Of the characters that `encodeURIComponent` keeps, a browser encodes the apostrophe. -/
theorem urlCharacter_of_unreserved {c : Char} (h : unreserved c = true) (hquote : c ≠ Char.ofNat 39) :
    urlCharacter c = true := by
  unfold unreserved at h
  unfold urlCharacter
  rw [Bool.or_eq_true] at h ⊢
  refine h.imp_right fun hmem => ?_
  simp only [List.contains_eq_mem, List.mem_cons, List.not_mem_nil, or_false, decide_eq_true_eq] at hmem ⊢
  tauto

/-- The characters of what is put in for a value. -/
theorem mem_encodeURIComponent {text : List Char} (hquote : Char.ofNat 39 ∉ text) {c : Char}
    (hc : c ∈ encodeURIComponent text) : urlCharacter c = true ∧ (unreserved c = true ∨ c = '%') := by
  obtain ⟨hmem, hkeep⟩ | rfl | halpha := mem_encode hc
  · refine ⟨urlCharacter_of_unreserved hkeep ?_, .inl hkeep⟩
    rintro rfl
    exact hquote hmem
  · exact ⟨by decide, .inr rfl⟩
  · refine ⟨?_, .inl ?_⟩
    · rw [urlCharacter, halpha, Bool.true_or]
    · rw [unreserved, halpha, Bool.true_or]

theorem not_mem_encodeURIComponent {text : List Char} (hquote : Char.ofNat 39 ∉ text) {c : Char}
    (hunreserved : unreserved c = false) (hpercent : c ≠ '%') : c ∉ encodeURIComponent text := by
  intro hc
  obtain hkeep | rfl := (mem_encodeURIComponent hquote hc).2
  · rw [hunreserved] at hkeep
    cases hkeep
  · exact hpercent rfl

/-! ## One parameter -/

/-- A name and a value that arrive as they are. -/
structure Sent (entry : List Char × List Char) : Prop where
  name : entry.1.all kept = true
  value : Char.ofNat 39 ∉ entry.2

/-- An entry as it is read. -/
def read (entry : List Char × List Char) : String × String :=
  (String.ofList entry.1, String.ofList entry.2)

variable {entry : List Char × List Char}

theorem Sent.parameter (h : Sent entry) : parameter (entryChars entry) = some (read entry) := by
  refine parameter_eq (not_mem_of_kept h.name (by decide)) ?_ (decode_encode safe_unreserved _)
  have hdecode := decode_encode safe_unreserved entry.1
  rwa [encode_of_kept (kept_unreserved h.name)] at hdecode

theorem Sent.not_mem (h : Sent entry) {c : Char} (hunreserved : unreserved c = false)
    (hpercent : c ≠ '%') (hequals : c ≠ '=') : c ∉ entryChars entry := by
  have hname : c ∉ entry.1 := not_mem_of_kept h.name (by rw [kept, hunreserved, Bool.false_and])
  rw [entryChars, List.mem_append, List.mem_cons, not_or, not_or]
  exact ⟨hname, hequals, not_mem_encodeURIComponent h.value hunreserved hpercent⟩

theorem Sent.url (h : Sent entry) : (entryChars entry).all urlCharacter = true := by
  rw [entryChars, List.all_append, List.all_cons, kept_url h.name]
  have hvalue : (encodeURIComponent entry.2).all urlCharacter = true :=
    List.all_eq_true.mpr fun c hc => (mem_encodeURIComponent h.value hc).1
  rw [hvalue]
  decide

theorem Sent.isSignature (h : Sent entry) (hname : entry.1 ≠ "signature".toList) :
    isSignature (entryChars entry) = false := by
  rw [← Bool.not_eq_true, Security.isSignature, List.isPrefixOf_iff_prefix]
  rintro ⟨rest, hrest⟩
  apply hname
  have hequals : '=' ∉ entry.1 := not_mem_of_kept h.name (by decide)
  have hsplit : "signature".toList ++ '=' :: rest = entry.1 ++ '=' :: encodeURIComponent entry.2 := hrest
  have htake := congrArg (List.takeWhile fun c => decide (c ≠ '=')) hsplit
  have hsignature : '=' ∉ "signature".toList := by decide
  rw [List.takeWhile_append_of_pos (ne_of_not_mem hequals), List.takeWhile_cons_of_neg (by decide),
    List.append_nil, List.takeWhile_append_of_pos (ne_of_not_mem hsignature),
    List.takeWhile_cons_of_neg (by decide), List.append_nil] at htake
  exact htake.symm

/-! ## The request -/

/-- The parameters that the server reads itself. -/
def reserved : List (List Char) := ["timestamp".toList, "public_key".toList, "signature".toList]

structure Form.WellFormed (form : Form) : Prop where
  base : form.basePath.all urlCharacter = true
  baseNoQuery : '?' ∉ form.basePath
  path : NormalPath (replacePath form.path form.pathparameters)
  sent : ∀ input ∈ form.queryparameters, Sent input
  names : ∀ input ∈ form.queryparameters, input.1 ∉ reserved
  publicKey : form.inputPublicKey.all kept = true
  privateKey : form.inputPrivateKey ≠ []
  plain : ∀ c ∈ form.inputPrivateKey, JsSha.Plain c

end Auth8.Playground
