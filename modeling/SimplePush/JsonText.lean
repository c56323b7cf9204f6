import SimplePush.Json

/-!
The grammar of a JSON text, on the bytes of a frame.

Each rule of the ABNF of JSON text is a predicate on byte strings, one constructor per
alternative; text is UTF-8, so an unescaped character of a string is the UTF-8 encoding of a code
point. Nothing of the server is modelled here: the grammar says which frames are well formed,
so that the classifier of `sniffer` can be held to it.
-/

namespace SimplePush.JsonText

open SimplePush.Json

/-- `ws = *( %x20 / %x09 / %x0A / %x0D )` -/
def Ws (bs : List UInt8) : Prop := ∀ b ∈ bs, isSpace b = true

instance (bs : List UInt8) : Decidable (Ws bs) := inferInstanceAs (Decidable (∀ b ∈ bs, _))

@[simp] lemma ws_nil : Ws [] := nofun

@[simp] lemma ws_append {a b : List UInt8} : Ws (a ++ b) ↔ Ws a ∧ Ws b := List.forall_mem_append

/-- A structural character between white space: `begin-object = ws %x7B ws`, and likewise
`end-object`, `begin-array`, `end-array`, `name-separator` and `value-separator`. -/
inductive Structural (c : UInt8) : List UInt8 → Prop
  | mk {a b : List UInt8} : Ws a → Ws b → Structural c (a ++ c :: b)

def isHexDigit (b : UInt8) : Bool := isDigit b || (65 ≤ b && b ≤ 70) || (97 ≤ b && b ≤ 102)

inductive IntPart : List UInt8 → Prop
  | zero : IntPart [0x30]
  | digits {d : UInt8} {ds : List UInt8} : 0x31 ≤ d → d ≤ 0x39 → (∀ x ∈ ds, isDigit x) →
      IntPart (d :: ds)

inductive Frac : List UInt8 → Prop
  | mk {d : UInt8} {ds : List UInt8} : isDigit d → (∀ x ∈ ds, isDigit x) → Frac (0x2E :: d :: ds)

inductive Exp : List UInt8 → Prop
  | mk {e d : UInt8} {sign ds : List UInt8} : e = 0x65 ∨ e = 0x45 →
      sign = [] ∨ sign = [0x2D] ∨ sign = [0x2B] → isDigit d → (∀ x ∈ ds, isDigit x) →
      Exp (e :: sign ++ d :: ds)

/-- `number = [ minus ] int [ frac ] [ exp ]` -/
inductive Number : List UInt8 → Prop
  | mk {m i f e : List UInt8} : m = [] ∨ m = [0x2D] → IntPart i → f = [] ∨ Frac f →
      e = [] ∨ Exp e → Number (m ++ i ++ f ++ e)

/-- `char = unescaped / escape ( ... )` -/
inductive StrChar : List UInt8 → Prop
  /-- `unescaped = %x20-21 / %x23-5B / %x5D-10FFFF`, encoded in UTF-8 -/
  | unescaped (c : Char) : 0x20 ≤ c.val ∧ c.val ≤ 0x21 ∨ 0x23 ≤ c.val ∧ c.val ≤ 0x5B ∨ 0x5D ≤ c.val →
      StrChar (String.utf8EncodeChar c)
  /-- `escape ( %x22 / %x5C / %x2F / %x62 / %x66 / %x6E / %x72 / %x74 )` -/
  | escaped {e : UInt8} : e ∈ [0x22, 0x5C, 0x2F, 0x62, 0x66, 0x6E, 0x72, 0x74] → StrChar [0x5C, e]
  /-- `escape %x75 4HEXDIG` -/
  | unicode {h : List UInt8} : h.length = 4 → (∀ x ∈ h, isHexDigit x) → StrChar (0x5C :: 0x75 :: h)

inductive Chars : List UInt8 → Prop
  | nil : Chars []
  | cons {c cs : List UInt8} : StrChar c → Chars cs → Chars (c ++ cs)

inductive Str : List UInt8 → Prop
  | mk {cs : List UInt8} : Chars cs → Str (0x22 :: cs ++ [0x22])

mutual

/-- `value = false / null / true / object / array / number / string`; an object or an array
with nothing between its brackets is its own alternative. -/
inductive Value : List UInt8 → Prop
  /-- `false = %x66.61.6c.73.65` -/
  | falseLit : Value [0x66, 0x61, 0x6C, 0x73, 0x65]
  /-- `null = %x6e.75.6c.6c` -/
  | nullLit : Value [0x6E, 0x75, 0x6C, 0x6C]
  /-- `true = %x74.72.75.65` -/
  | trueLit : Value [0x74, 0x72, 0x75, 0x65]
  /-- `object = begin-object end-object` -/
  | emptyObject {b e : List UInt8} : Structural 0x7B b → Structural 0x7D e → Value (b ++ e)
  /-- `object = begin-object member *( value-separator member ) end-object` -/
  | object {b ms e : List UInt8} : Structural 0x7B b → Members ms → Structural 0x7D e →
      Value (b ++ ms ++ e)
  /-- `array = begin-array end-array` -/
  | emptyArray {b e : List UInt8} : Structural 0x5B b → Structural 0x5D e → Value (b ++ e)
  /-- `array = begin-array value *( value-separator value ) end-array` -/
  | array {b vs e : List UInt8} : Structural 0x5B b → Elements vs → Structural 0x5D e →
      Value (b ++ vs ++ e)
  | number {n : List UInt8} : Number n → Value n
  | string {s : List UInt8} : Str s → Value s

/-- `member *( value-separator member )`, where `member = string name-separator value`. -/
inductive Members : List UInt8 → Prop
  | one {s n v : List UInt8} : Str s → Structural 0x3A n → Value v → Members (s ++ n ++ v)
  | cons {s n v c ms : List UInt8} : Str s → Structural 0x3A n → Value v → Structural 0x2C c →
      Members ms → Members (s ++ n ++ v ++ c ++ ms)

inductive Elements : List UInt8 → Prop
  | one {v : List UInt8} : Value v → Elements v
  | cons {v c vs : List UInt8} : Value v → Structural 0x2C c → Elements vs → Elements (v ++ c ++ vs)

end

/-- `JSON-text = ws value ws` -/
inductive Text : List UInt8 → Prop
  | mk {a v b : List UInt8} : Ws a → Value v → Ws b → Text (a ++ v ++ b)

/-! ### Bytes every derivation contains -/

lemma Structural.mem {c : UInt8} {s : List UInt8} (h : Structural c s) : c ∈ s := by
  obtain ⟨_, _⟩ := h
  simp

lemma Str.quote_mem {s : List UInt8} (h : Str s) : (0x22 : UInt8) ∈ s := by
  obtain ⟨_⟩ := h
  simp

lemma Members.quote_mem {ms : List UInt8} (h : Members ms) : (0x22 : UInt8) ∈ ms := by
  cases h with
  | one hs => simp [hs.quote_mem]
  | cons hs => simp [hs.quote_mem]

lemma Number.digit_mem {n : List UInt8} (h : Number n) : ∃ d ∈ n, isDigit d = true := by
  obtain ⟨-, hi, -, -⟩ := h
  cases hi with
  | zero => exact ⟨0x30, by simp, rfl⟩
  | @digits d _ h₁ h₂ _ =>
    refine ⟨d, by simp, ?_⟩
    simp only [isDigit, Bool.and_eq_true, decide_eq_true_eq]
    exact ⟨UInt8.le_trans (by decide) h₁, h₂⟩

end SimplePush.JsonText
