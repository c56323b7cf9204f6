import SimplePush.JsonAccept
import SimplePush.Encode

/-!
`json.Marshal` and `json.Unmarshal` agree on the values a worker writes.

`Encode` writes a value's text and `Json` reads one back: `utf8.DecodeRune` reads the bytes
`utf8EncodeChar` writes, `unquote` undoes each escape `encodeState.string` writes, and the
scanner and parser of `JsonAccept` take the text apart as the encoder put it together. So every
value whose numbers are JSON numbers is written as a JSON text that decodes to it.
-/

namespace SimplePush.JsonRoundTrip

open SimplePush.Json SimplePush.JsonText SimplePush.JsonAccept SimplePush.Encode

/-! ### Runes -/

lemma leadRange_three {n : Nat} (h : 0xE0 ≤ n ∧ n ≤ 0xEF) :
    leadRange n = some (3, if n = 0xE0 then 0xA0 else 0x80, if n = 0xED then 0x9F else 0xBF) := by
  rw [leadRange, if_neg (by omega)]
  by_cases hE0 : n = 0xE0
  · rw [if_pos hE0, if_pos hE0, if_neg (by omega)]
  rw [if_neg hE0, if_neg hE0]
  by_cases hED : n = 0xED
  · rw [if_pos hED, if_pos hED]
  rw [if_neg hED, if_neg hED, if_pos ⟨by omega, h.2⟩]

lemma leadRange_four {n : Nat} (h : 0xF0 ≤ n ∧ n ≤ 0xF4) :
    leadRange n = some (4, if n = 0xF0 then 0x90 else 0x80, if n = 0xF4 then 0x8F else 0xBF) := by
  rw [leadRange, if_neg (by omega), if_neg (by omega), if_neg (by omega), if_neg (by omega)]
  by_cases hF0 : n = 0xF0
  · rw [if_pos hF0, if_pos hF0, if_neg (by omega)]
  rw [if_neg hF0, if_neg hF0]
  by_cases hF4 : n = 0xF4
  · rw [if_pos hF4, if_pos hF4]
  rw [if_neg hF4, if_neg hF4, if_pos (by omega)]


lemma decodeRune_one {b : UInt8} (bs : List UInt8) (h : b.toNat < 0x80) :
    decodeRune b bs = (Char.ofNat b.toNat, 1) := by
  simp only [decodeRune, if_pos h]

lemma decodeRune_two {b₀ b₁ : UInt8} (bs : List UInt8) {x₀ x₁ : Nat} (h₀ : b₀.toNat = x₀ + 0xC0)
    (h₁ : b₁.toNat = x₁ + 0x80) (hx : x₀ < 32 ∧ x₁ < 64) (hn : 0x80 ≤ x₀ * 64 + x₁) :
    decodeRune b₀ (b₁ :: bs) = (Char.ofNat (x₀ * 64 + x₁), 2) := by
  simp only [decodeRune, leadRange, if_pos (show 0xC2 ≤ b₀.toNat ∧ b₀.toNat ≤ 0xDF by omega),
    List.getD_cons_zero, if_neg (show ¬b₀.toNat < 0x80 by omega)]
  rw [if_pos (by omega), h₀, h₁, show (x₀ + 0xC0) % 32 * 64 + (x₁ + 0x80) % 64 = x₀ * 64 + x₁ by omega]

lemma decodeRune_three {b₀ b₁ b₂ : UInt8} (bs : List UInt8) {x₀ x₁ x₂ : Nat}
    (h₀ : b₀.toNat = x₀ + 0xE0) (h₁ : b₁.toNat = x₁ + 0x80) (h₂ : b₂.toNat = x₂ + 0x80)
    (hx : x₀ < 16 ∧ x₁ < 64 ∧ x₂ < 64)
    (hn : 0x800 ≤ x₀ * 4096 + x₁ * 64 + x₂ ∧
      (x₀ * 4096 + x₁ * 64 + x₂ < 0xD800 ∨ 0xE000 ≤ x₀ * 4096 + x₁ * 64 + x₂)) :
    decodeRune b₀ (b₁ :: b₂ :: bs) = (Char.ofNat (x₀ * 4096 + x₁ * 64 + x₂), 3) := by
  have hc : isCont b₂.toNat = true := by
    simp only [isCont, h₂, Bool.and_eq_true, decide_eq_true_eq]
    omega
  simp only [decodeRune, leadRange_three (show 0xE0 ≤ b₀.toNat ∧ b₀.toNat ≤ 0xEF by omega),
    List.getD_cons_zero, List.getD_cons_succ, if_neg (show ¬b₀.toNat < 0x80 by omega)]
  rw [if_pos ⟨by split_ifs <;> omega, by split_ifs <;> omega, hc⟩, h₀, h₁, h₂,
    show (x₀ + 0xE0) % 16 * 4096 + (x₁ + 0x80) % 64 * 64 + (x₂ + 0x80) % 64 = x₀ * 4096 + x₁ * 64 + x₂
      by omega]

lemma decodeRune_four {b₀ b₁ b₂ b₃ : UInt8} (bs : List UInt8) {x₀ x₁ x₂ x₃ : Nat}
    (h₀ : b₀.toNat = x₀ + 0xF0) (h₁ : b₁.toNat = x₁ + 0x80) (h₂ : b₂.toNat = x₂ + 0x80)
    (h₃ : b₃.toNat = x₃ + 0x80) (hx : x₀ < 8 ∧ x₁ < 64 ∧ x₂ < 64 ∧ x₃ < 64)
    (hn : 0x10000 ≤ x₀ * 262144 + x₁ * 4096 + x₂ * 64 + x₃ ∧
      x₀ * 262144 + x₁ * 4096 + x₂ * 64 + x₃ < 0x110000) :
    decodeRune b₀ (b₁ :: b₂ :: b₃ :: bs) =
      (Char.ofNat (x₀ * 262144 + x₁ * 4096 + x₂ * 64 + x₃), 4) := by
  have hc₂ : isCont b₂.toNat = true := by
    simp only [isCont, h₂, Bool.and_eq_true, decide_eq_true_eq]
    omega
  have hc₃ : isCont b₃.toNat = true := by
    simp only [isCont, h₃, Bool.and_eq_true, decide_eq_true_eq]
    omega
  simp only [decodeRune, leadRange_four (show 0xF0 ≤ b₀.toNat ∧ b₀.toNat ≤ 0xF4 by omega),
    List.getD_cons_zero, List.getD_cons_succ, if_neg (show ¬b₀.toNat < 0x80 by omega)]
  rw [if_pos ⟨by split_ifs <;> omega, by split_ifs <;> omega, hc₂, hc₃⟩, h₀, h₁, h₂, h₃,
    show (x₀ + 0xF0) % 8 * 262144 + (x₁ + 0x80) % 64 * 4096 + (x₂ + 0x80) % 64 * 64 + (x₃ + 0x80) % 64 =
      x₀ * 262144 + x₁ * 4096 + x₂ * 64 + x₃ by omega]

lemma payloads_two (n : Nat) (h : n < 0x800) : n / 64 % 32 * 64 + n % 64 = n := by omega

lemma payloads_three (n : Nat) (h : n < 0x10000) :
    n / 4096 % 16 * 4096 + n / 64 % 64 * 64 + n % 64 = n := by
  have e₁ := Nat.div_add_mod n 64
  have e₂ := Nat.div_add_mod (n / 64) 64
  simp only [Nat.div_div_eq_div_mul, Nat.reduceMul] at e₂
  rw [Nat.mod_eq_of_lt (show n / 4096 < 16 by omega)]
  omega

lemma payloads_four (n : Nat) (h : n < 0x110000) :
    n / 262144 % 8 * 262144 + n / 4096 % 64 * 4096 + n / 64 % 64 * 64 + n % 64 = n := by
  have e₁ := Nat.div_add_mod n 64
  have e₂ := Nat.div_add_mod (n / 64) 64
  have e₃ := Nat.div_add_mod (n / 4096) 64
  simp only [Nat.div_div_eq_div_mul, Nat.reduceMul] at e₂ e₃
  rw [Nat.mod_eq_of_lt (show n / 262144 < 8 by omega)]
  omega

/-- `utf8.DecodeRune` reads back the bytes `utf8EncodeChar` writes. -/
lemma runes_utf8EncodeChar (c : Char) (k : Nat) (rest : List UInt8) :
    runes (k + 1) (String.utf8EncodeChar c ++ rest) = c :: runes k rest := by
  have hc : c.toNat < 0xd800 ∨ (0xdfff < c.toNat ∧ c.toNat < 0x110000) := c.valid
  have hm := utf8EncodeChar_toNat c
  have h64 (m : Nat) : m % 64 < 64 := Nat.mod_lt _ (by decide)
  by_cases h₁ : c.toNat ≤ 0x7f
  · rw [if_pos h₁] at hm
    obtain ⟨b₀, l, hb, h₀, hl⟩ := List.map_eq_cons_iff.1 hm
    rw [List.map_eq_nil_iff.1 hl] at hb
    rw [hb, List.singleton_append, runes, decodeRune_one rest (by omega), h₀, Char.ofNat_toNat]
    rfl
  rw [if_neg h₁] at hm
  by_cases h₂ : c.toNat ≤ 0x7ff
  · rw [if_pos h₂] at hm
    obtain ⟨b₀, l, hb, h₀, hl⟩ := List.map_eq_cons_iff.1 hm
    obtain ⟨b₁, l, rfl, h₁, hl⟩ := List.map_eq_cons_iff.1 hl
    rw [List.map_eq_nil_iff.1 hl] at hb
    have e := payloads_two c.toNat (by omega)
    rw [hb, List.cons_append, List.singleton_append, runes,
      decodeRune_two _ h₀ h₁ ⟨Nat.mod_lt _ (by decide), h64 _⟩ (by omega), e, Char.ofNat_toNat]
    rfl
  rw [if_neg h₂] at hm
  by_cases h₃ : c.toNat ≤ 0xffff
  · rw [if_pos h₃] at hm
    obtain ⟨b₀, l, hb, h₀, hl⟩ := List.map_eq_cons_iff.1 hm
    obtain ⟨b₁, l, rfl, h₁, hl⟩ := List.map_eq_cons_iff.1 hl
    obtain ⟨b₂, l, rfl, h₂, hl⟩ := List.map_eq_cons_iff.1 hl
    rw [List.map_eq_nil_iff.1 hl] at hb
    have e := payloads_three c.toNat (by omega)
    rw [hb, List.cons_append, List.cons_append, List.singleton_append, runes,
      decodeRune_three _ h₀ h₁ h₂ ⟨Nat.mod_lt _ (by decide), h64 _, h64 _⟩ (by rw [e]; omega), e,
      Char.ofNat_toNat]
    rfl
  rw [if_neg h₃] at hm
  obtain ⟨b₀, l, hb, h₀, hl⟩ := List.map_eq_cons_iff.1 hm
  obtain ⟨b₁, l, rfl, h₁, hl⟩ := List.map_eq_cons_iff.1 hl
  obtain ⟨b₂, l, rfl, h₂, hl⟩ := List.map_eq_cons_iff.1 hl
  obtain ⟨b₃, l, rfl, h₃, hl⟩ := List.map_eq_cons_iff.1 hl
  rw [List.map_eq_nil_iff.1 hl] at hb
  have e := payloads_four c.toNat (by omega)
  rw [hb, List.cons_append, List.cons_append, List.cons_append, List.singleton_append, runes,
    decodeRune_four _ h₀ h₁ h₂ h₃ ⟨Nat.mod_lt _ (by decide), h64 _, h64 _, h64 _⟩ (by rw [e]; omega), e,
    Char.ofNat_toNat]
  rfl

lemma runes_bytes (cs : List Char) {k : Nat} (hk : cs.length ≤ k) :
    runes k (cs.flatMap String.utf8EncodeChar) = cs := by
  induction cs generalizing k with
  | nil => cases k <;> rfl
  | cons c cs ih =>
    obtain ⟨k, rfl⟩ : ∃ k', k = k' + 1 := ⟨k - 1, by simp at hk; omega⟩
    rw [List.flatMap_cons, runes_utf8EncodeChar, ih (by simp at hk; omega)]

/-! ### Escapes -/

lemma unescape_cons {b : UInt8} (hb : b ≠ 92) (n : Nat) (rest : List UInt8) :
    unescape (n + 1) (b :: rest) = b :: unescape n rest := by
  rw [unescape.eq_4]
  · rintro _ _ _ _ _ rfl
    exact absurd rfl hb
  · rintro _ _ rfl
    exact absurd rfl hb

lemma unescape_escape {e : UInt8} (he : e ≠ 117) (n : Nat) (rest : List UInt8) :
    unescape (n + 1) (92 :: e :: rest) = escaped e :: unescape n rest := by
  rw [unescape.eq_3]
  rintro _ _ _ _ _ rfl
  exact absurd rfl he

lemma unescape_u {a b c d : UInt8} {r : Nat} (h : hex4 a b c d = some r) (hr : r < 0xD800 ∨ 0xE000 ≤ r)
    (n : Nat) (rest : List UInt8) :
    unescape (n + 1) (92 :: 117 :: a :: b :: c :: d :: rest) = rune r ++ unescape n rest := by
  rw [unescape, h]
  simp only [if_pos hr]

lemma unescape_plain {l : List UInt8} (hl : ∀ b ∈ l, b ≠ 92) {n : Nat} (hn : l.length ≤ n)
    (rest : List UInt8) : unescape n (l ++ rest) = l ++ unescape (n - l.length) rest := by
  induction l generalizing n with
  | nil => simp
  | cons b l ih =>
    obtain ⟨n, rfl⟩ : ∃ m, n = m + 1 := ⟨n - 1, by simp at hn; omega⟩
    rw [List.cons_append, unescape_cons (hl b (.head _)),
      ih (fun x hx => hl x (.tail _ hx)) (by simp at hn; omega)]
    simp

def hexByte (k : Nat) : UInt8 := UInt8.ofNat (hexDigit k).toNat

lemma hexByte_spec {k : Nat} (hk : k < 16) :
    String.utf8EncodeChar (hexDigit k) = [hexByte k] ∧ hexVal (hexByte k) = some k ∧
      isHexDigit (hexByte k) = true := by
  interval_cases k <;> exact ⟨rfl, rfl, rfl⟩

lemma hexDigits_sum (n : Nat) :
    n / 4096 * 4096 + n / 256 % 16 * 256 + n / 16 % 16 * 16 + n % 16 = n := by
  have e₁ := Nat.div_add_mod n 16
  have e₂ := Nat.div_add_mod (n / 16) 16
  have e₃ := Nat.div_add_mod (n / 256) 16
  simp only [Nat.div_div_eq_div_mul, Nat.reduceMul] at e₂ e₃
  omega

lemma hex4_of_digits {n a b c d : Nat} (hn : a * 4096 + b * 256 + c * 16 + d = n) (ha : a < 16)
    (hb : b < 16) (hc : c < 16) (hd : d < 16) :
    hex4 (hexByte a) (hexByte b) (hexByte c) (hexByte d) = some n := by
  simp only [hex4, (hexByte_spec ha).2.1, (hexByte_spec hb).2.1, (hexByte_spec hc).2.1,
    (hexByte_spec hd).2.1]
  subst hn
  rfl

/-- The bytes `encodeState.string` writes for one character, by the form they take. -/
inductive Escapes : Char → List UInt8 → Prop
  /-- The character's own UTF-8 bytes. -/
  | plain {c : Char} : (0x20 ≤ c.val ∧ c.val ≤ 0x21 ∨ 0x23 ≤ c.val ∧ c.val ≤ 0x5B ∨ 0x5D ≤ c.val) →
      Escapes c (String.utf8EncodeChar c)
  /-- A backslash and a letter that stands for the character. -/
  | short {c : Char} {e : UInt8} : e ∈ [0x22, 0x5C, 0x2F, 0x62, 0x66, 0x6E, 0x72, 0x74] →
      String.utf8EncodeChar c = [escaped e] → Escapes c [0x5C, e]
  /-- A backslash, a `u` and the four hex digits of the character. -/
  | unicode {c : Char} : c.toNat < 0x10000 →
      Escapes c (0x5C :: 0x75 ::
        [c.toNat / 4096, c.toNat / 256 % 16, c.toNat / 16 % 16, c.toNat % 16].map hexByte)

lemma Escapes.strChar {c : Char} {l : List UInt8} (h : Escapes c l) : StrChar l := by
  cases h with
  | plain hc => exact .unescaped c hc
  | short he _ => exact .escaped he
  | unicode hc =>
    refine .unicode (by simp) ?_
    simp only [List.map_cons, List.map_nil, List.mem_cons, List.mem_singleton, List.not_mem_nil,
      or_false]
    rintro x (rfl | rfl | rfl | rfl) <;> exact (hexByte_spec (by omega)).2.2

lemma Escapes.length_pos {c : Char} {l : List UInt8} (h : Escapes c l) : 0 < l.length := by
  cases h with
  | plain => simp [Char.utf8Size_pos]
  | short => simp
  | unicode => simp

/-- `unquote` turns what the encoder wrote for a character back into its UTF-8 bytes, using at
most a rune of fuel per byte. -/
lemma Escapes.unescape {c : Char} {l : List UInt8} (h : Escapes c l) {n : Nat} (hn : l.length ≤ n) :
    ∃ n', n - l.length ≤ n' ∧ ∀ rest, unescape n (l ++ rest) = String.utf8EncodeChar c ++ unescape n' rest := by
  obtain ⟨n, rfl⟩ : ∃ m, n = m + 1 := ⟨n - 1, by have := h.length_pos; omega⟩
  cases h with
  | plain hc =>
    refine ⟨n + 1 - (String.utf8EncodeChar c).length, le_refl _, fun rest => ?_⟩
    exact unescape_plain (fun b hb => fun e => (utf8EncodeChar_plain hc b hb).2.2 (by rw [e]; rfl)) hn rest
  | @short e he hc =>
    have h117 : e ≠ 117 := by rintro rfl; revert he; decide
    exact ⟨n, by simp, fun rest => by rw [List.cons_append, List.cons_append, List.nil_append,
      unescape_escape h117, hc, List.singleton_append]⟩
  | unicode hc =>
    have hv : c.toNat < 0xd800 ∨ (0xdfff < c.toNat ∧ c.toNat < 0x110000) := c.valid
    have hx := hex4_of_digits (hexDigits_sum c.toNat) (by omega) (Nat.mod_lt _ (by decide))
      (Nat.mod_lt _ (by decide)) (Nat.mod_lt _ (by decide))
    refine ⟨n, by simp, fun rest => ?_⟩
    simp only [List.map_cons, List.map_nil, List.cons_append, List.nil_append]
    rw [unescape_u hx (by omega), rune, Char.ofNat_toNat]

/-! ### Strings -/

lemma bytes_append (s t : String) : bytes (s ++ t) = bytes s ++ bytes t := by
  simp only [bytes, String.data_append, List.flatMap_append]

lemma bytes_toString (c : Char) : bytes c.toString = String.utf8EncodeChar c := by
  simp [bytes, Char.toString, String.singleton]

lemma toNat_ne {c d : Char} (h : c ≠ d) : c.toNat ≠ d.toNat := fun e => h (Char.ext (UInt32.toNat.inj e))

lemma plain_range {c : Char} (h₁ : 0x20 ≤ c.toNat) (h₂ : c.toNat ≠ 0x22) (h₃ : c.toNat ≠ 0x5C) :
    0x20 ≤ c.val ∧ c.val ≤ 0x21 ∨ 0x23 ≤ c.val ∧ c.val ≤ 0x5B ∨ 0x5D ≤ c.val := by
  show 0x20 ≤ c.toNat ∧ c.toNat ≤ 0x21 ∨ 0x23 ≤ c.toNat ∧ c.toNat ≤ 0x5B ∨ 0x5D ≤ c.toNat
  omega

lemma quoteChar_escapes (c : Char) : Escapes c (bytes (quoteChar c)) := by
  unfold quoteChar
  split_ifs with h₁ h₂ h₃ h₄ h₅ h₆
  · rw [bytes_toString]
    exact .plain (plain_range h₂.1 (toNat_ne h₂.2.2.1) (toNat_ne h₂.2.1))
  · rcases h₃ with rfl | rfl <;> exact .short (by decide) rfl
  · subst h₄
    exact .short (by decide) rfl
  · subst h₅
    exact .short (by decide) rfl
  · have e : bytes ("\\u00" ++ (hexDigit (c.toNat / 16)).toString ++ (hexDigit (c.toNat % 16)).toString) =
        0x5C :: 0x75 :: [c.toNat / 4096, c.toNat / 256 % 16, c.toNat / 16 % 16, c.toNat % 16].map hexByte := by
      rw [bytes_append, bytes_append, bytes_toString, bytes_toString, (hexByte_spec (by omega)).1,
        (hexByte_spec (Nat.mod_lt _ (by decide))).1, show c.toNat / 4096 = 0 by omega,
        show c.toNat / 256 % 16 = 0 by omega, show c.toNat / 16 % 16 = c.toNat / 16 by omega]
      rfl
    rw [e]
    exact .unicode (by omega)
  · rcases h₆ with rfl | rfl <;> exact .unicode (by decide)
  · rw [bytes_toString]
    have hv : c.toNat < 0xd800 ∨ (0xdfff < c.toNat ∧ c.toNat < 0x110000) := c.valid
    exact .plain (plain_range (by omega) (by omega) (by omega))

def quoted (s : String) : List UInt8 := s.data.flatMap fun c => bytes (quoteChar c)

lemma bytes_quote (s : String) : bytes (quote s) = 0x22 :: quoted s ++ [0x22] := by
  simp [bytes, quote, quoted, List.flatMap_assoc, show String.utf8EncodeChar '"' = [34] from rfl]

lemma chars_quoted (s : String) : Chars (quoted s) := by
  unfold quoted
  induction s.data with
  | nil => exact .nil
  | cons c cs ih =>
    rw [List.flatMap_cons]
    exact .cons (quoteChar_escapes c).strChar ih

/-- `unquote` turns the bytes between a string's quotes back into its UTF-8 bytes. -/
lemma unescape_quoted (cs : List Char) {n : Nat}
    (hn : (cs.flatMap fun c => bytes (quoteChar c)).length ≤ n) :
    unescape n (cs.flatMap fun c => bytes (quoteChar c)) = cs.flatMap String.utf8EncodeChar := by
  induction cs generalizing n with
  | nil => cases n <;> rfl
  | cons c cs ih =>
    rw [List.flatMap_cons, List.length_append] at hn
    obtain ⟨n', hn', h⟩ := (quoteChar_escapes c).unescape (n := n) (by omega)
    rw [List.flatMap_cons, h, ih (by omega), List.flatMap_cons]

lemma length_le_quoted (cs : List Char) : cs.length ≤ (cs.flatMap fun c => bytes (quoteChar c)).length := by
  induction cs with
  | nil => exact le_refl _
  | cons c cs ih =>
    rw [List.flatMap_cons, List.length_append, List.length_cons]
    have := (quoteChar_escapes c).length_pos
    omega

/-- **Strings round trip**: `unquote` reads back the string `encodeState.string` wrote. -/
lemma unquote_quoted (s : String) : unquote (quoted s) = s := by
  rw [unquote, quoted, unescape_quoted s.data le_rfl, runes_bytes s.data (length_le_quoted s.data)]

/-! ### Numbers -/

lemma ascii_of_number {n : List UInt8} (h : Number n) : ∀ b ∈ n, b.toNat < 0x80 := by
  have hd {x : UInt8} (hx : isDigit x = true) : x.toNat < 0x80 := by
    have := isDigit_iff.1 hx
    omega
  have hds {ds : List UInt8} (h : ∀ x ∈ ds, isDigit x = true) : ∀ b ∈ ds, b.toNat < 0x80 :=
    fun b hb => hd (h b hb)
  obtain ⟨hm, hi, hf, he⟩ := h
  simp only [List.forall_mem_append]
  refine ⟨⟨⟨?_, ?_⟩, ?_⟩, ?_⟩
  · rcases hm with rfl | rfl <;> decide
  · cases hi with
    | zero => decide
    | digits h₁ h₂ hs =>
      rw [List.forall_mem_cons]
      exact ⟨hd (isDigit_iff.2 ⟨le_trans (by decide) h₁, h₂⟩), hds hs⟩
  · rcases hf with rfl | ⟨hx, hs⟩
    · decide
    · simp only [List.forall_mem_cons]
      exact ⟨by decide, hd hx, hds hs⟩
  · rcases he with rfl | ⟨hE, hsign, hx, hs⟩
    · decide
    · rw [List.cons_append, List.forall_mem_cons, List.forall_mem_append, List.forall_mem_cons]
      refine ⟨by rcases hE with rfl | rfl <;> decide, by rcases hsign with rfl | rfl | rfl <;> decide,
        hd hx, hds hs⟩

lemma map_ofNat_bytes (cs : List Char) (h : ∀ b ∈ cs.flatMap String.utf8EncodeChar, b.toNat < 0x80) :
    (cs.flatMap String.utf8EncodeChar).map (fun b => Char.ofNat b.toNat) = cs := by
  induction cs with
  | nil => rfl
  | cons c cs ih =>
    rw [List.flatMap_cons, List.forall_mem_append] at h
    have hm := utf8EncodeChar_toNat c
    obtain ⟨b, l, hb⟩ : ∃ b l, String.utf8EncodeChar c = b :: l :=
      List.exists_cons_of_ne_nil (List.ne_nil_of_length_pos (by simp [Char.utf8Size_pos]))
    have hb₀ := h.1 b (by simp [hb])
    rw [hb] at hm
    split_ifs at hm <;> simp only [List.map_cons, List.cons.injEq] at hm
    · obtain ⟨h₀, hl⟩ := hm
      rw [List.map_eq_nil_iff] at hl
      rw [List.flatMap_cons, hb, hl, List.singleton_append, List.map_cons, h₀, Char.ofNat_toNat,
        ih h.2]
    all_goals omega

lemma numberToken_bytes {lit : String} (h : Number (bytes lit)) :
    numberToken (bytes lit).reverse = .scalar (.number lit) := by
  rw [numberToken, List.reverse_reverse, bytes, map_ofNat_bytes lit.data (ascii_of_number h)]

/-! ### Values -/

/-- Every number in a value has a JSON number for its literal. -/
inductive NumbersValid : Value → Prop
  | null : NumbersValid .null
  | bool (b : Bool) : NumbersValid (.bool b)
  | number {lit : String} : Number (bytes lit) → NumbersValid (.number lit)
  | string (s : String) : NumbersValid (.string s)
  | array {xs : List Value} : (∀ x ∈ xs, NumbersValid x) → NumbersValid (.array xs)
  | object {fs : List (String × Value)} : (∀ f ∈ fs, NumbersValid f.2) → NumbersValid (.object fs)

lemma structural_one (c : UInt8) : Structural c [c] := @Structural.mk c [] [] ws_nil ws_nil

/-- The text of `v` scans to tokens that the parser closes into `v`. -/
def EncodesTo (v : Value) : Prop := ∃ toks, Scans (bytes (encode v)) toks ∧ ValueToks v toks

lemma scans_quote (s : String) : ScansAny (bytes (quote s)) [.scalar (.string s)] := by
  have h := scan_str (chars_quoted s)
  rwa [unquote_quoted, ← bytes_quote] at h

lemma encodesTo_elems {xs : List Value} (hxs : xs ≠ []) (h : ∀ x ∈ xs, EncodesTo x) :
    ∃ toks, Scans (bytes (encodeElems xs)) toks ∧ ElementToks xs.reverse toks := by
  induction xs with
  | nil => exact absurd rfl hxs
  | cons x xs ih =>
    obtain ⟨t₁, hs₁, hv₁⟩ := h x (.head _)
    cases xs with
    | nil => exact ⟨t₁, by simpa [encodeElems] using hs₁, elementToks_one hv₁⟩
    | cons y ys =>
      obtain ⟨t₂, hs₂, hv₂⟩ := ih (List.cons_ne_nil _ _) fun z hz => h z (.tail _ hz)
      refine ⟨t₁ ++ [.comma] ++ t₂, ?_, ?_⟩
      · simp only [encodeElems, bytes_append]
        exact (hs₁.append_any (scan_structural (structural_one 44) rfl)
          (follow_structural (structural_one 44) (by decide))).append_scans hs₂
      · rw [List.reverse_cons]
        exact elementToks_cons hv₁ hv₂

lemma encodesTo_fields {fs : List (String × Value)} (hfs : fs ≠ []) (h : ∀ f ∈ fs, EncodesTo f.2) :
    ∃ toks k, Scans (bytes (encodeFields fs)) toks ∧ MemberToks fs.reverse k toks := by
  induction fs with
  | nil => exact absurd rfl hfs
  | cons f fs ih =>
    obtain ⟨k, v⟩ := f
    obtain ⟨t₁, hs₁, hv₁⟩ := h (k, v) (.head _)
    have hkey := ((scans_quote k).append (scan_structural (structural_one 58) rfl)).append_scans hs₁
    cases fs with
    | nil => exact ⟨_, k, by simpa [encodeFields, bytes_append] using hkey, memberToks_one k hv₁⟩
    | cons g gs =>
      obtain ⟨t₂, k', hs₂, hv₂⟩ := ih (List.cons_ne_nil _ _) fun z hz => h z (.tail _ hz)
      refine ⟨[.scalar (.string k)] ++ [.colon] ++ t₁ ++ [.comma] ++ t₂, k', ?_, ?_⟩
      · simp only [encodeFields, bytes_append]
        exact (hkey.append_any (scan_structural (structural_one 44) rfl)
          (follow_structural (structural_one 44) (by decide))).append_scans hs₂
      · rw [List.reverse_cons]
        exact memberToks_cons k hv₁ hv₂

lemma encodesTo_of_valid {v : Value} (h : NumbersValid v) : EncodesTo v := by
  induction h with
  | null => exact ⟨_, (scan_word (show step .between 110 = some (.word [117, 108, 108] .null, []) from rfl)
      (by decide)).scans, valueToks_scalar _⟩
  | bool b =>
    cases b
    · exact ⟨_, (scan_word (show step .between 102 = some (.word [97, 108, 115, 101] (.bool false), [])
        from rfl) (by decide)).scans, valueToks_scalar _⟩
    · exact ⟨_, (scan_word (show step .between 116 = some (.word [114, 117, 101] (.bool true), [])
        from rfl) (by decide)).scans, valueToks_scalar _⟩
  | @number lit hn =>
    refine ⟨_, scans_number hn, ?_⟩
    show ValueToks _ [numberToken (bytes lit).reverse]
    rw [numberToken_bytes hn]
    exact valueToks_scalar _
  | string s => exact ⟨_, (scans_quote s).scans, valueToks_scalar _⟩
  | @array xs _ ih =>
    cases xs with
    | nil => exact ⟨_, ((scan_structural (structural_one 91) rfl).append
        (scan_structural (structural_one 93) rfl)).scans, valueToks_emptyArray⟩
    | cons x xs =>
      obtain ⟨toks, hs, hv⟩ := encodesTo_elems (List.cons_ne_nil _ _) ih
      have hv := valueToks_array hv
      rw [List.reverse_reverse] at hv
      refine ⟨_, ?_, hv⟩
      simp only [encode, bytes_append]
      exact (((scan_structural (structural_one 91) rfl).append_scans hs).append_any
        (scan_structural (structural_one 93) rfl) (follow_structural (structural_one 93) (by decide))).scans
  | @object fs _ ih =>
    cases fs with
    | nil => exact ⟨_, ((scan_structural (structural_one 123) rfl).append
        (scan_structural (structural_one 125) rfl)).scans, valueToks_emptyObject⟩
    | cons f fs =>
      obtain ⟨toks, k, hs, hv⟩ := encodesTo_fields (List.cons_ne_nil _ _) ih
      have hv := valueToks_object hv
      rw [List.reverse_reverse] at hv
      refine ⟨_, ?_, hv⟩
      simp only [encode, bytes_append]
      exact (((scan_structural (structural_one 123) rfl).append_scans hs).append_any
        (scan_structural (structural_one 125) rfl) (follow_structural (structural_one 125) (by decide))).scans

/-! ### The text the encoder writes -/

lemma elements_of_valid {xs : List Value} (hxs : xs ≠ [])
    (h : ∀ x ∈ xs, JsonText.Value (bytes (encode x))) : Elements (bytes (encodeElems xs)) := by
  induction xs with
  | nil => exact absurd rfl hxs
  | cons x xs ih =>
    cases xs with
    | nil => simpa [encodeElems] using Elements.one (h x (.head _))
    | cons y ys =>
      simp only [encodeElems, bytes_append]
      exact .cons (h x (.head _)) (structural_one 44)
        (ih (List.cons_ne_nil _ _) fun z hz => h z (.tail _ hz))

lemma members_of_valid {fs : List (String × Value)} (hfs : fs ≠ [])
    (h : ∀ f ∈ fs, JsonText.Value (bytes (encode f.2))) : Members (bytes (encodeFields fs)) := by
  induction fs with
  | nil => exact absurd rfl hfs
  | cons f fs ih =>
    obtain ⟨k, v⟩ := f
    have hk : Str (bytes (quote k)) := by
      rw [bytes_quote]
      exact .mk (chars_quoted k)
    cases fs with
    | nil =>
      simp only [encodeFields, bytes_append]
      exact .one hk (structural_one 58) (h (k, v) (.head _))
    | cons g gs =>
      simp only [encodeFields, bytes_append]
      exact .cons hk (structural_one 58) (h (k, v) (.head _)) (structural_one 44)
        (ih (List.cons_ne_nil _ _) fun z hz => h z (.tail _ hz))

/-- The encoder writes a value of the JSON grammar for every value whose numbers are JSON
numbers. -/
lemma value_of_valid {v : Value} (h : NumbersValid v) : JsonText.Value (bytes (encode v)) := by
  induction h with
  | null => exact .nullLit
  | bool b => cases b <;> first | exact .falseLit | exact .trueLit
  | number hn => exact .number hn
  | string s =>
    rw [encode, bytes_quote]
    exact .string (.mk (chars_quoted s))
  | @array xs _ ih =>
    cases xs with
    | nil => exact .emptyArray (structural_one 91) (structural_one 93)
    | cons x xs =>
      simp only [encode, bytes_append]
      exact .array (structural_one 91) (elements_of_valid (List.cons_ne_nil _ _) ih) (structural_one 93)
  | @object fs _ ih =>
    cases fs with
    | nil => exact .emptyObject (structural_one 123) (structural_one 125)
    | cons f fs =>
      simp only [encode, bytes_append]
      exact .object (structural_one 123) (members_of_valid (List.cons_ne_nil _ _) ih) (structural_one 125)

lemma encode_text_parse {v : Value} (h : NumbersValid v) :
    Text (bytes (encode v)) ∧ parse (bytes (encode v)) = some v := by
  obtain ⟨toks, hs, hv⟩ := encodesTo_of_valid h
  have ht := Text.mk ws_nil (value_of_valid h) ws_nil
  have hp := parse_of_scans ws_nil ws_nil hs hv
  simp only [List.nil_append, List.append_nil] at ht hp
  exact ⟨ht, hp⟩

/-- **The encoder and the decoder agree**: for every value whose numbers are JSON numbers,
`json.Marshal` writes a JSON text, and `json.Unmarshal` reads that text back as the value. -/
theorem encode_round_trip {v : Value} (h : NumbersValid v) :
    Text (bytes (encode v)) ∧ parse (bytes (encode v)) = some v :=
  encode_text_parse h

/-- A number with a sign, a fraction and an exponent, a string with characters the encoder
escapes, and `null`, in an array. -/
theorem encode_round_trip_escapes :
    NumbersValid (.array [.number "-1.5e3", .string "<\u2028>", .null]) ∧
      Text (bytes (encode (.array [.number "-1.5e3", .string "<\u2028>", .null]))) ∧
      parse (bytes (encode (.array [.number "-1.5e3", .string "<\u2028>", .null]))) =
        some (.array [.number "-1.5e3", .string "<\u2028>", .null]) :=
  have hn : Number (bytes "-1.5e3") :=
    @Number.mk [45] [49] [46, 53] [101, 51] (.inr rfl) (.digits (by decide) (by decide) (by simp))
      (.inr (.mk rfl (by simp))) (.inr (@Exp.mk 101 51 [] [] (.inl rfl) (.inl rfl) rfl (by simp)))
  have h : NumbersValid (.array [.number "-1.5e3", .string "<\u2028>", .null]) := .array fun x hx => by
    simp only [List.mem_cons, List.mem_singleton, List.not_mem_nil, or_false] at hx
    rcases hx with rfl | rfl | rfl
    exacts [.number hn, .string _, .null]
  ⟨h, encode_round_trip h⟩

end SimplePush.JsonRoundTrip
