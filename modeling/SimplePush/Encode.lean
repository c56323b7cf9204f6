import Mathlib.Data.List.Sort
import SimplePush.Json

/-!
`json.Marshal` of the values a worker sends, as `encoding/json` writes them.

`encodeState.string` copies a character unless it must escape it: `"` and `\` get a backslash,
newline and carriage return their short escapes, any other byte below 0x20 and the three HTML
characters `<`, `>` and `&` a `\u00XX` escape, and U+2028 and U+2029 a `\u202X` escape. A Go
string may hold bytes that are not UTF-8, which the encoder replaces with `�`; a `String`
cannot, so that branch has no counterpart here. A struct is written in the order of its fields,
a map in the order of its keys.
-/

namespace SimplePush.Encode

open SimplePush.Json

def hexDigit (n : Nat) : Char := Nat.digitChar n

/-- One character of a string, as `encodeState.string` writes it. -/
def quoteChar (c : Char) : String :=
  if c.toNat < 0x80 then
    if 0x20 ≤ c.toNat ∧ c ≠ '\\' ∧ c ≠ '"' ∧ c ≠ '<' ∧ c ≠ '>' ∧ c ≠ '&' then c.toString
    else if c = '\\' ∨ c = '"' then "\\" ++ c.toString
    else if c = '\n' then "\\n"
    else if c = '\r' then "\\r"
    else "\\u00" ++ (hexDigit (c.toNat / 16)).toString ++ (hexDigit (c.toNat % 16)).toString
  else if c = '\u2028' ∨ c = '\u2029' then "\\u202" ++ (hexDigit (c.toNat % 16)).toString
  else c.toString

/-- `encodeState.string`: the string between quotes, each character as `quoteChar` writes it. -/
def quote (s : String) : String :=
  ⟨'"' :: s.data.flatMap (fun c => (quoteChar c).data) ++ ['"']⟩

mutual

/-- `encodeState.reflectValue` on a value. -/
def encode : Value → String
  | .null => "null"
  | .bool b => if b then "true" else "false"
  | .number lit => lit
  | .string s => quote s
  | .array xs => "[" ++ encodeElems xs ++ "]"
  | .object fs => "\x7b" ++ encodeFields fs ++ "\x7d"

def encodeElems : List Value → String
  | [] => ""
  | [x] => encode x
  | x :: xs => encode x ++ "," ++ encodeElems xs

def encodeFields : List (String × Value) → String
  | [] => ""
  | [(k, v)] => quote k ++ ":" ++ encode v
  | (k, v) :: fs => quote k ++ ":" ++ encode v ++ "," ++ encodeFields fs

end

/-- Go's `<` on strings, which compares bytes; on UTF-8 that is comparing code points. -/
def keyLt : List Char → List Char → Bool
  | _, [] => false
  | [], _ :: _ => true
  | a :: as, b :: bs => a.toNat < b.toNat || (a = b && keyLt as bs)

/-- `json.Marshal` of a `JsMap`: `mapEncoder` writes the keys in sorted order. -/
def marshalMap (m : List (String × Value)) : String :=
  encode (.object (m.insertionSort fun a b => ¬keyLt b.1.data a.1.data))

/-! ### Characters the encoder copies -/

/-- A character `encodeState.string` writes as it is: no quote, backslash or byte below 0x20,
none of `<`, `>`, `&`, and neither U+2028 nor U+2029. -/
def JsonSafe (c : Char) : Prop :=
  0x20 ≤ c.toNat ∧ c ∉ ['"', '\\', '<', '>', '&', '\u2028', '\u2029']

instance (c : Char) : Decidable (JsonSafe c) := inferInstanceAs (Decidable (_ ∧ _))

lemma quoteChar_of_safe {c : Char} (h : JsonSafe c) : quoteChar c = c.toString := by
  obtain ⟨hsp, hc⟩ := h
  simp only [List.mem_cons, List.mem_singleton, not_or, List.not_mem_nil] at hc
  obtain ⟨h1, h2, h3, h4, h5, h6, h7, -⟩ := hc
  unfold quoteChar
  by_cases ha : c.toNat < 0x80
  · rw [if_pos ha, if_pos ⟨hsp, h2, h1, h3, h4, h5⟩]
  · rw [if_neg ha, if_neg (not_or.2 ⟨h6, h7⟩)]

lemma quote_of_safe {s : String} (h : ∀ c ∈ s.data, JsonSafe c) : quote s = "\"" ++ s ++ "\"" := by
  have hs : (s.data.flatMap fun c => (quoteChar c).data) = s.data := by
    conv_rhs => rw [← List.flatMap_singleton' s.data]
    exact List.flatMap_congr fun c hc => by rw [quoteChar_of_safe (h c hc)]; rfl
  apply String.ext
  simp [quote, hs, String.data_append]

end SimplePush.Encode
