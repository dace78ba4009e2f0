import Auth8.Foundations.BigEndian
import Auth8.Foundations.JsArray

/-! # The script `sha1.js`

The hash functions of the documentation page, under the one-letter names of the script. The bitwise
operators see a number modulo 2^32, so what only they read is a word; counts are natural numbers, and
`ushr` is `>>>` on them. -/
namespace Auth8.Playground.JsSha
open BigEndian JsArray
set_option autoImplicit false

/-- `x >>> k` of a count. -/
def ushr (x k : ℕ) : ℕ := x % 4294967296 / 2 ^ k

/-- `x << k` of a small number; the distance is taken modulo 32. -/
def shl (x : Word) (k : ℤ) : Word := x <<< (k % 32).toNat

/-! ## Words -/

def q (a : Word) (f : ℕ) : Word := a <<< f ||| a >>> (32 - f)

def r (a f : Word) : Word :=
  let b := (a &&& 65535) + (f &&& 65535)
  ((a >>> 16 + f >>> 16 + b >>> 16) &&& 65535) <<< 16 ||| (b &&& 65535)

def t (a f b e c : Word) : Word :=
  let d := (a &&& 65535) + (f &&& 65535) + (b &&& 65535) + (e &&& 65535) + (c &&& 65535)
  ((a >>> 16 + f >>> 16 + b >>> 16 + e >>> 16 + c >>> 16 + d >>> 16) &&& 65535) <<< 16 |||
    (d &&& 65535)

/-! ## `s` -/

/-- The local variables of the loops of `s`. -/
structure Locals where
  b : List Word
  e : Word
  c : Word
  d : Word
  g : Word
  m : Word
  deriving DecidableEq, Repr

/-- The body of the loop over `k`. -/
def inner (a : List Word) (u k : ℕ) (l : Locals) : Locals :=
  let b := store 0 l.b k
    (if k < 16 then a.getD (k + u) 0
      else q (l.b.getD (k - 3) 0 ^^^ l.b.getD (k - 8) 0 ^^^ l.b.getD (k - 14) 0 ^^^
        l.b.getD (k - 16) 0) 1)
  let n :=
    if k < 20 then t (q l.e 5) ((l.c &&& l.d) ^^^ (~~~l.c &&& l.g)) l.m 1518500249 (b.getD k 0)
    else if k < 40 then t (q l.e 5) (l.c ^^^ l.d ^^^ l.g) l.m 1859775393 (b.getD k 0)
    else if k < 60 then
      t (q l.e 5) ((l.c &&& l.d) ^^^ (l.c &&& l.g) ^^^ (l.d &&& l.g)) l.m 2400959708 (b.getD k 0)
    else t (q l.e 5) (l.c ^^^ l.d ^^^ l.g) l.m 3395469782 (b.getD k 0)
  { b := b, m := l.g, g := l.d, d := q l.c 30, c := l.e, e := n }

/-- The first `n` rounds of the loop over `k`. -/
def innerLoop (a : List Word) (u : ℕ) (l : Locals) : ℕ → Locals
  | 0 => l
  | k + 1 => inner a u k (innerLoop a u l k)

/-- The body of the loop over `u`, on the array `h` and the array `b` of the block before. -/
def outer (a : List Word) (u : ℕ) (hb : List Word × List Word) : List Word × List Word :=
  let h := hb.1
  let l := innerLoop a u
    ⟨hb.2, h.getD 0 0, h.getD 1 0, h.getD 2 0, h.getD 3 0, h.getD 4 0⟩ 80
  ([r l.e (h.getD 0 0), r l.c (h.getD 1 0), r l.d (h.getD 2 0), r l.g (h.getD 3 0),
    r l.m (h.getD 4 0)], l.b)

/-- The first `n` rounds of the loop over `u`, which counts by 16. -/
def outerLoop (a : List Word) (hb : List Word × List Word) : ℕ → List Word × List Word
  | 0 => hb
  | n + 1 => outer a (16 * n) (outerLoop a hb n)

/-- The two assignments at the head of `s`. -/
def padded (a : List Word) (f : ℕ) : List Word :=
  let a := store 0 a (ushr f 5) (a.getD (ushr f 5) 0 ||| shl 128 (24 - (f % 32 : ℕ)))
  store 0 a (ushr (f + 65) 9 * 16 + 15) (BitVec.ofNat 32 f)

def s (a : List Word) (f : ℕ) : List Word :=
  let a := padded a f
  (outerLoop a ([1732584193, 4023233417, 2562383102, 271733878, 3285377520], [])
    ((a.length + 15) / 16)).1

/-! ## Input as text -/

abbrev CodeUnit := BitVec 16

/-- An object `{value, binLen}`. -/
structure Packed where
  value : List Word
  binLen : ℕ
  deriving DecidableEq, Repr

/-- The array `c` for a code unit, in the branch "UTF8". -/
def utf8Unit (unit : CodeUnit) : List Word :=
  let e : Word := unit.setWidth 32
  if 2048 < unit.toNat then
    [(224 : Word) ||| (e &&& 61440) >>> 12, (128 : Word) ||| (e &&& 4032) >>> 6, 128 ||| (e &&& 63)]
  else if 128 < unit.toNat then [(192 : Word) ||| (e &&& 1984) >>> 6, 128 ||| (e &&& 63)]
  else [e]

/-- `b[d >>> 2] |= x << 24 - d % 4 * 8, d += 1`, on the array and the count. -/
def put (bd : List Word × ℕ) (x : Word) : List Word × ℕ :=
  (store 0 bd.1 (ushr bd.2 2) (bd.1.getD (ushr bd.2 2) 0 ||| shl x (24 - (bd.2 % 4 * 8 : ℕ))),
    bd.2 + 1)

/-- `b[d >>> 2] |= x << 16 - d % 4 * 8, d += 2`. -/
def putUnit (bd : List Word × ℕ) (x : Word) : List Word × ℕ :=
  (store 0 bd.1 (ushr bd.2 2) (bd.1.getD (ushr bd.2 2) 0 ||| shl x (16 - (bd.2 % 4 * 8 : ℕ))),
    bd.2 + 2)

def w (a : List CodeUnit) (f : String) : Packed :=
  let bd :=
    if f = "UTF8" then a.foldl (fun bd unit => (utf8Unit unit).foldl put bd) ([], 0)
    else if f = "UTF16" then a.foldl (fun bd unit => putUnit bd (unit.setWidth 32)) ([], 0)
    else ([], 0)
  ⟨bd.1, 8 * bd.2⟩

/-! ## Input in hexadecimal digits -/

/-- What `parseInt` skips at the front. -/
def isWhiteSpace (unit : CodeUnit) : Bool :=
  (9 ≤ unit.toNat && unit.toNat ≤ 13) || (0x2000 ≤ unit.toNat && unit.toNat ≤ 0x200a) ||
    [0x20, 0xa0, 0x1680, 0x2028, 0x2029, 0x202f, 0x205f, 0x3000, 0xfeff].contains unit.toNat

def hexValue (unit : CodeUnit) : Option ℕ :=
  if 48 ≤ unit.toNat ∧ unit.toNat ≤ 57 then some (unit.toNat - 48)
  else if 65 ≤ unit.toNat ∧ unit.toNat ≤ 70 then some (unit.toNat - 55)
  else if 97 ≤ unit.toNat ∧ unit.toNat ≤ 102 then some (unit.toNat - 87)
  else none

/-- The digits at the front. -/
def leadingDigits : List CodeUnit → List ℕ
  | [] => []
  | unit :: rest =>
    match hexValue unit with
    | some d => d :: leadingDigits rest
    | none => []

/-- `parseInt(string, 16)`; none is `NaN`. -/
def parseInt (string : List CodeUnit) : Option ℤ :=
  let signed := string.dropWhile isWhiteSpace
  let unsigned := if signed.head? = some 43 ∨ signed.head? = some 45 then signed.tail else signed
  let digits := leadingDigits
    (if unsigned.head? = some 48 ∧ (unsigned[1]? = some 88 ∨ unsigned[1]? = some 120) then unsigned.drop 2
      else unsigned)
  let n : ℕ := digits.foldl (fun n d => 16 * n + d) 0
  if digits = [] then none else some (if signed.head? = some 45 then -(n : ℤ) else n)

/-- The loop of `v`, from the index `e` on. -/
def hexLoop (f : List Word) (e : ℕ) : List CodeUnit → Except String (List Word)
  | first :: second :: rest =>
    match parseInt [first, second] with
    | none => .error "String of HEX type contains invalid characters"
    | some c =>
      hexLoop (store 0 f (ushr e 3) (f.getD (ushr e 3) 0 |||
        shl (BitVec.ofInt 32 c) (24 - (e % 8 * 4 : ℕ)))) (e + 2) rest
  | _ => .ok f

def v (a : List CodeUnit) : Except String Packed :=
  if a.length % 2 ≠ 0 then .error "String of HEX type must be in byte increments"
  else (hexLoop [] 0 a).map fun f => ⟨f, 4 * a.length⟩

/-! ## Input in Base64 -/

def base64Digits : List Char :=
  "ABCDEFGHIJKLMNOPQRSTUVWXYZabcdefghijklmnopqrstuvwxyz0123456789+/".toList

/-- `base64Digits.indexOf(unit)`; the length where it is none of them. -/
def base64Index (unit : CodeUnit) : ℕ :=
  base64Digits.findIdx fun c => decide (BitVec.ofNat 16 c.toNat = unit)

def isBase64Digit (unit : CodeUnit) : Bool := decide (base64Index unit < 64)

/-- The variable `g` after the loop over the characters of a group. -/
def groupWord (m : List CodeUnit) : Word :=
  m.zipIdx.foldl (fun g e => g ||| shl (BitVec.ofNat 32 (base64Index e.1)) (18 - (6 * e.2 : ℕ))) 0

/-- The bytes of a group, one less than it has characters. -/
def putGroup (fb : List Word × ℕ) (m : List CodeUnit) : List Word × ℕ :=
  (List.range (m.length - 1)).foldl (fun fb d => put fb (groupWord m >>> (16 - 8 * d) &&& 255)) fb

def base64Loop (fb : List Word × ℕ) : List CodeUnit → List Word × ℕ
  | m0 :: m1 :: m2 :: m3 :: rest => base64Loop (putGroup fb [m0, m1, m2, m3]) rest
  | m => putGroup fb m

def x (a : List CodeUnit) : Except String Packed :=
  if a = [] ∨ a.any (fun unit => !isBase64Digit unit && decide (unit ≠ 61)) then
    .error "Invalid character in base-64 string"
  else
    let digits := a.filter fun unit => decide (unit ≠ 61)
    -- `e` is the place of the first `=`
    if a.contains 61 ∧ a.idxOf 61 < digits.length then .error "Invalid '=' found in base-64 string"
    else
      let fb := base64Loop ([], 0) digits
      .ok ⟨fb.1, 8 * fb.2⟩

/-! ## Output -/

structure Options where
  outputUpper : Bool
  b64Pad : List Char
  deriving DecidableEq, Repr

/-- The argument's own properties, where it has them. -/
def A (outputUpper : Option Bool) (b64Pad : Option (List Char)) : Options :=
  ⟨outputUpper.getD false, b64Pad.getD ['=']⟩

/-- `a[c >>> 2] >>> 8 * (3 - c % 4)`. -/
def shiftedAt (a : List Word) (c : ℕ) : Word := a.getD (ushr c 2) 0 >>> (8 * (3 - c % 4))

def hexDigits : List Char := "0123456789abcdef".toList

def y (a : List Word) (f : Options) : List Char :=
  let b := (List.range (4 * a.length)).flatMap fun c =>
    let d := shiftedAt a c
    [hexDigits.getD (d >>> 4 &&& 15).toNat '0', hexDigits.getD (d &&& 15).toNat '0']
  if f.outputUpper then b.map Char.toUpper else b

def z (a : List Word) (f : Options) : List Char :=
  (List.range ((4 * a.length + 2) / 3)).flatMap fun i =>
    let c := 3 * i
    let g := (shiftedAt a c &&& 255) <<< 16 ||| (shiftedAt a (c + 1) &&& 255) <<< 8 |||
      (shiftedAt a (c + 2) &&& 255)
    (List.range 4).flatMap fun d =>
      if 8 * c + 6 * d ≤ 32 * a.length then
        [base64Digits.getD (g >>> (6 * (3 - d)) &&& 63).toNat 'A']
      else f.b64Pad

/-! ## The object -/

/-- What the constructor keeps: the packed text, and the encoding, in which a key is read as well. -/
structure Sha where
  c : List Word
  e : ℕ
  d : String
  deriving DecidableEq, Repr

/-- The functions of the input formats. -/
def inputFormat (text : List CodeUnit) (format encoding : String) : Except String Packed :=
  if format = "HEX" then v text
  else if format = "ASCII" ∨ format = "TEXT" then .ok (w text encoding)
  else if format = "B64" then x text
  else .error "inputFormat must be HEX, TEXT, ASCII, or B64"

def n (a : List CodeUnit) (f : String) (b : Option String) : Except String Sha :=
  -- `b || "UTF8"`
  let d := (b.filter fun b => decide (b ≠ "")).getD "UTF8"
  if d ≠ "UTF8" ∧ d ≠ "UTF16" then .error "encoding must be UTF8 or UTF16"
  else if f = "HEX" ∧ a.length % 2 ≠ 0 then .error "srcString of HEX type must be in byte increments"
  else (inputFormat a f d).map fun g => ⟨g.value, g.binLen, d⟩

/-- The functions of the output formats. -/
def outputFormat (format message : String) : Except String (List Word → Options → List Char) :=
  if format = "HEX" then .ok y else if format = "B64" then .ok z else .error message

/-- The array `h` of a key: the key itself or its hash, and the last word of the block masked. -/
def keyArray (key : Packed) : List Word :=
  if 64 < key.binLen / 8 then
    let h := s key.value key.binLen
    store 0 h 15 (h.getD 15 0 &&& 4294967040)
  else if key.binLen / 8 < 64 then store 0 key.value 15 (key.value.getD 15 0 &&& 4294967040)
  else key.value

/-- The arrays `n` and `t`. -/
def keyXor (h : List Word) (x : Word) : List Word := (List.range 16).map fun l => h.getD l 0 ^^^ x

def Sha.getHMAC (o : Sha) (b : List CodeUnit) (a f g : String) (q : Options) :
    Except String (List Char) :=
  (outputFormat g "outputFormat must be HEX or B64").bind fun g =>
    if f = "SHA-1" then
      (inputFormat b a o.d).bind fun key =>
        let h := keyArray key
        let inner := s (keyXor h 909522486 ++ o.c) (512 + o.e)
        .ok (g (s (keyXor h 1549556828 ++ inner) (512 + 160)) q)
    else .error "Chosen SHA variant is not supported"

end Auth8.Playground.JsSha
