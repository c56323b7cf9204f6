import Mathlib.Algebra.Group.Int
import Mathlib.Data.List.Basic

/-!
JSON texts as `encoding/json` reads them.

`json.Unmarshal` first scans the whole text (`checkValid`), a byte at a time; here the scanner
emits tokens, and a second machine with a stack of open containers builds the value from them.
Both are folds over their input, so they need no fuel. A string's content is decoded as
`unquote` does it: escapes resolved, a lone surrogate and every invalid UTF-8 sequence read as
U+FFFD.
-/

namespace SimplePush.Json

/-- The bytes of a Go string: its UTF-8 encoding. -/
def bytes (s : String) : List UInt8 := s.data.flatMap String.utf8EncodeChar

/-- A JSON value. A number keeps its literal: the Go type it is decoded into gives it a meaning. -/
inductive Value where
  | null
  | bool (b : Bool)
  | number (lit : String)
  | string (s : String)
  | array (xs : List Value)
  | object (fields : List (String × Value))
  deriving Repr, Inhabited

/-! ### Strings -/

def hexVal (b : UInt8) : Option Nat :=
  if 48 ≤ b ∧ b ≤ 57 then some (b.toNat - 48)
  else if 65 ≤ b ∧ b ≤ 70 then some (b.toNat - 55)
  else if 97 ≤ b ∧ b ≤ 102 then some (b.toNat - 87)
  else none

def hex4 (a b c d : UInt8) : Option Nat := do
  pure ((← hexVal a) * 4096 + (← hexVal b) * 256 + (← hexVal c) * 16 + (← hexVal d))

def rune (n : Nat) : List UInt8 := String.utf8EncodeChar (Char.ofNat n)

def escaped : UInt8 → UInt8
  | 98 => 8 | 102 => 12 | 110 => 10 | 114 => 13 | 116 => 9 | b => b

/-- A string's content with its escapes resolved as `unquote` does, still as bytes: a
surrogate pair becomes its code point, any other surrogate U+FFFD. -/
def unescape : Nat → List UInt8 → List UInt8
  | 0, _ => []
  | n + 1, 92 :: 117 :: a :: b :: c :: d :: rest =>
    match hex4 a b c d with
    | none => unescape n rest
    | some r =>
      if r < 0xD800 ∨ 0xE000 ≤ r then rune r ++ unescape n rest
      else match rest with
        | 92 :: 117 :: a' :: b' :: c' :: d' :: rest' =>
          match hex4 a' b' c' d' with
          | some r' =>
            if r < 0xDC00 ∧ 0xDC00 ≤ r' ∧ r' < 0xE000 then
              rune (0x10000 + (r - 0xD800) * 1024 + (r' - 0xDC00)) ++ unescape n rest'
            else rune 0xFFFD ++ unescape n rest
          | none => rune 0xFFFD ++ unescape n rest
        | _ => rune 0xFFFD ++ unescape n rest
  | n + 1, 92 :: e :: rest => escaped e :: unescape n rest
  | n + 1, b :: rest => b :: unescape n rest
  | _ + 1, [] => []

def isCont (b : Nat) : Bool := 0x80 ≤ b && b ≤ 0xBF

def leadRange (n : Nat) : Option (Nat × Nat × Nat) :=
  if 0xC2 ≤ n ∧ n ≤ 0xDF then some (2, 0x80, 0xBF)
  else if n = 0xE0 then some (3, 0xA0, 0xBF)
  else if n = 0xED then some (3, 0x80, 0x9F)
  else if 0xE1 ≤ n ∧ n ≤ 0xEF then some (3, 0x80, 0xBF)
  else if n = 0xF0 then some (4, 0x90, 0xBF)
  else if n = 0xF4 then some (4, 0x80, 0x8F)
  else if 0xF1 ≤ n ∧ n ≤ 0xF3 then some (4, 0x80, 0xBF)
  else none

/-- `utf8.DecodeRune`: the rune at the front of `b0 :: bs` and the number of bytes it takes;
an invalid sequence reads as U+FFFD of one byte. -/
def decodeRune (b0 : UInt8) (bs : List UInt8) : Char × Nat :=
  let n := b0.toNat
  let byteAt (i : Nat) : Nat := (bs.getD i 0).toNat
  if n < 0x80 then (Char.ofNat n, 1)
  else match leadRange n with
    | some (2, lo, hi) =>
      if lo ≤ byteAt 0 ∧ byteAt 0 ≤ hi then (Char.ofNat ((n % 32) * 64 + byteAt 0 % 64), 2)
      else ('�', 1)
    | some (3, lo, hi) =>
      if lo ≤ byteAt 0 ∧ byteAt 0 ≤ hi ∧ isCont (byteAt 1) then
        (Char.ofNat ((n % 16) * 4096 + (byteAt 0 % 64) * 64 + byteAt 1 % 64), 3)
      else ('�', 1)
    | some (_, lo, hi) =>
      if lo ≤ byteAt 0 ∧ byteAt 0 ≤ hi ∧ isCont (byteAt 1) ∧ isCont (byteAt 2) then
        (Char.ofNat ((n % 8) * 262144 + (byteAt 0 % 64) * 4096 + (byteAt 1 % 64) * 64 +
          byteAt 2 % 64), 4)
      else ('�', 1)
    | none => ('�', 1)

def runes : Nat → List UInt8 → List Char
  | 0, _ => []
  | _, [] => []
  | fuel + 1, b :: bs => (decodeRune b bs).1 :: runes fuel (bs.drop ((decodeRune b bs).2 - 1))

/-- The Go string a JSON string's raw content decodes to. -/
def unquote (raw : List UInt8) : String :=
  ⟨runes raw.length (unescape raw.length raw)⟩

example : unquote (bytes "\\ud83d\\ude00\\ud800") = "😀�" := by decide


/-! ### The scanner -/

inductive Token where
  | beginObject | endObject | beginArray | endArray | colon | comma
  | scalar (v : Value)
  deriving Inhabited

/-- Where the scanner stands inside a number (`stateNeg`, `state0`, `state1`, `stateDot`, ...). -/
inductive NumState where
  | neg | zero | digits | dot | frac | exp | expSign | expDigits

/-- The scanner's state between two bytes. Literals and string contents are kept reversed. -/
inductive Scan where
  | between
  | number (st : NumState) (lit : List UInt8)
  | string (raw : List UInt8)
  | escape (raw : List UInt8)
  | hex (raw : List UInt8) (left : Nat)
  | word (left : List UInt8) (v : Value)

def isSpace (b : UInt8) : Bool := b == 32 || b == 9 || b == 10 || b == 13
def isDigit (b : UInt8) : Bool := 48 ≤ b && b ≤ 57

def NumState.next : NumState → UInt8 → Option NumState
  | .neg, b => if b == 48 then some .zero else if isDigit b then some .digits else none
  | .zero, b => if b == 46 then some .dot else if b == 101 || b == 69 then some .exp else none
  | .digits, b =>
    if isDigit b then some .digits else if b == 46 then some .dot
    else if b == 101 || b == 69 then some .exp else none
  | .dot, b => if isDigit b then some .frac else none
  | .frac, b => if isDigit b then some .frac else if b == 101 || b == 69 then some .exp else none
  | .exp, b =>
    if b == 43 || b == 45 then some .expSign else if isDigit b then some .expDigits else none
  | .expSign, b => if isDigit b then some .expDigits else none
  | .expDigits, b => if isDigit b then some .expDigits else none

def NumState.complete : NumState → Bool
  | .zero | .digits | .frac | .expDigits => true
  | _ => false

def start (b : UInt8) : Option (Scan × List Token) :=
  if isSpace b then some (.between, [])
  else if b == 123 then some (.between, [.beginObject])
  else if b == 125 then some (.between, [.endObject])
  else if b == 91 then some (.between, [.beginArray])
  else if b == 93 then some (.between, [.endArray])
  else if b == 58 then some (.between, [.colon])
  else if b == 44 then some (.between, [.comma])
  else if b == 34 then some (.string [], [])
  else if b == 45 then some (.number .neg [b], [])
  else if b == 48 then some (.number .zero [b], [])
  else if isDigit b then some (.number .digits [b], [])
  else if b == 116 then some (.word [114, 117, 101] (.bool true), [])
  else if b == 102 then some (.word [97, 108, 115, 101] (.bool false), [])
  else if b == 110 then some (.word [117, 108, 108] .null, [])
  else none

def numberToken (lit : List UInt8) : Token :=
  .scalar (.number ⟨lit.reverse.map fun b => Char.ofNat b.toNat⟩)

def step : Scan → UInt8 → Option (Scan × List Token)
  | .between, b => start b
  | .number st lit, b =>
    match st.next b with
    | some st' => some (.number st' (b :: lit), [])
    | none =>
      if st.complete then (start b).map fun p => (p.1, numberToken lit :: p.2) else none
  | .string raw, b =>
    if b == 34 then some (.between, [.scalar (.string (unquote raw.reverse))])
    else if b == 92 then some (.escape raw, [])
    else if b < 32 then none
    else some (.string (b :: raw), [])
  | .escape raw, b =>
    if b == 117 then some (.hex (b :: 92 :: raw) 4, [])
    else if [34, 92, 47, 98, 102, 110, 114, 116].contains b then some (.string (b :: 92 :: raw), [])
    else none
  | .hex raw (k + 1), b =>
    if (hexVal b).isSome then some (if k = 0 then .string (b :: raw) else .hex (b :: raw) k, [])
    else none
  | .hex _ 0, _ => none
  | .word (c :: cs) v, b =>
    if b == c then some (if cs.isEmpty then (.between, [.scalar v]) else (.word cs v, [])) else none
  | .word [] _, _ => none

def finish : Scan → Option (List Token)
  | .between => some []
  | .number st lit => if st.complete then some [numberToken lit] else none
  | _ => none

def tokens (raw : List UInt8) : Option (List Token) := do
  let (s, ts) ← raw.foldlM (fun (p : Scan × List Token) b => do
    let (s', new) ← step p.1 b
    pure (s', p.2 ++ new)) (Scan.between, [])
  pure (ts ++ (← finish s))

/-! ### Values -/

/-- An open container: an array's elements so far, or an object's fields so far and the key
whose value comes next. Both lists are reversed. -/
inductive Open where
  | array (xs : List Value)
  | object (fields : List (String × Value)) (key : String)

inductive Expect where
  | value
  | valueOrEnd
  | key
  | keyOrEnd
  | colon
  | commaOrEnd
  | done (v : Value)

def close (v : Value) : List Open → List Open × Expect
  | [] => ([], .done v)
  | .array xs :: st => (.array (v :: xs) :: st, .commaOrEnd)
  | .object fs k :: st => (.object ((k, v) :: fs) k :: st, .commaOrEnd)

def begin (st : List Open) : Token → Option (List Open × Expect)
  | .scalar v => some (close v st)
  | .beginArray => some (.array [] :: st, .valueOrEnd)
  | .beginObject => some (.object [] "" :: st, .keyOrEnd)
  | _ => none

def shift : List Open × Expect → Token → Option (List Open × Expect)
  | (st, .value), t => begin st t
  | (.array xs :: st, .valueOrEnd), .endArray => some (close (.array xs.reverse) st)
  | (st, .valueOrEnd), t => begin st t
  | (.object fs _ :: st, .keyOrEnd), .endObject => some (close (.object fs.reverse) st)
  | (.object fs _ :: st, .keyOrEnd), .scalar (.string k) => some (.object fs k :: st, .colon)
  | (.object fs _ :: st, .key), .scalar (.string k) => some (.object fs k :: st, .colon)
  | (st, .colon), .colon => some (st, .value)
  | (.array xs :: st, .commaOrEnd), .comma => some (.array xs :: st, .value)
  | (.object fs k :: st, .commaOrEnd), .comma => some (.object fs k :: st, .key)
  | (.array xs :: st, .commaOrEnd), .endArray => some (close (.array xs.reverse) st)
  | (.object fs _ :: st, .commaOrEnd), .endObject => some (close (.object fs.reverse) st)
  | _, _ => none

/-- `json.Unmarshal`'s first pass: the value of a JSON text, or `none` for a `SyntaxError`. -/
def parse (raw : List UInt8) : Option Value := do
  match ← (← tokens raw).foldlM shift ([], .value) with
  | ([], .done v) => some v
  | _ => none

end SimplePush.Json
