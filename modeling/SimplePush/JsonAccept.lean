import Mathlib.Tactic.IntervalCases
import SimplePush.PingBody

/-!
What `json.Unmarshal`'s scanner and parser do with a JSON text.

The scanner of `Json` is a fold over the bytes, and each derivation of the grammar of
`JsonText` moves it in one way: white space and a string leave it between tokens with the
string's token added, a structural character adds its token, and a number leaves it inside the
number until the byte after it, which for a number of a JSON text is white space, a comma, a
closing bracket or the end. The parser then closes a value's tokens into the container that is
open, whatever lies below it. So every JSON text is decoded, and no frame that is one is taken
for a malformed payload by the receive loop.
-/

namespace SimplePush.JsonAccept

open SimplePush.Json SimplePush.JsonText SimplePush.Messages SimplePush.Sniffer SimplePush.PingBody

/-! ### The scanner as a fold -/

def scanByte (p : Scan × List Token) (b : UInt8) : Option (Scan × List Token) := do
  let (s', new) ← step p.1 b
  pure (s', p.2 ++ new)

def tokensFrom (p : Scan × List Token) (raw : List UInt8) : Option (List Token) := do
  let (s, ts) ← raw.foldlM scanByte p
  pure (ts ++ (← finish s))

lemma tokens_eq (raw : List UInt8) : tokens raw = tokensFrom (.between, []) raw := rfl

lemma tokensFrom_append (p : Scan × List Token) (a b : List UInt8) :
    tokensFrom p (a ++ b) = (a.foldlM scanByte p).bind (tokensFrom · b) := by
  simp only [tokensFrom, List.foldlM_append]
  cases a.foldlM scanByte p <;> rfl

lemma tokensFrom_cons (p : Scan × List Token) (b : UInt8) (bs : List UInt8) :
    tokensFrom p (b :: bs) = (scanByte p b).bind (tokensFrom · bs) := by
  rw [← List.singleton_append, tokensFrom_append]
  simp only [List.foldlM_cons, List.foldlM_nil, bind_pure]

lemma tokensFrom_nil (s : Scan) (ts : List Token) :
    tokensFrom (s, ts) [] = (finish s).map (ts ++ ·) := by
  simp only [tokensFrom, List.foldlM_nil, pure_bind]
  cases finish s <;> rfl


/-! ### The bytes of a character -/

lemma toNat_lor (a b : UInt8) : (a ||| b).toNat = a.toNat ||| b.toNat := BitVec.toNat_or ..

lemma toNat_mask_lor (x mask lead : UInt8) {k m : Nat} (hmask : mask.toNat = 2 ^ k - 1)
    (hlead : lead.toNat = 2 ^ k * m) : (x &&& mask ||| lead).toNat = x.toNat % 2 ^ k + 2 ^ k * m := by
  rw [toNat_lor, UInt8.and_toNat, hmask, Nat.and_pow_two_sub_one_eq_mod, hlead, Nat.or_comm,
    ← Nat.mul_add_lt_is_or (Nat.mod_lt _ (Nat.two_pow_pos k))]
  omega

lemma toNat_toUInt8 (v : UInt32) : v.toUInt8.toNat = v.toNat % 256 := by
  simp [UInt32.toUInt8, Nat.toUInt8, UInt8.toNat, UInt8.ofNat]

lemma toNat_shr6 (v : UInt32) : (v >>> 6).toNat = v.toNat / 64 := by
  show (v.toBitVec >>> (6 : Nat)).toNat = _
  rw [BitVec.toNat_ushiftRight, Nat.shiftRight_eq_div_pow]; rfl
lemma toNat_shr12 (v : UInt32) : (v >>> 12).toNat = v.toNat / 4096 := by
  show (v.toBitVec >>> (12 : Nat)).toNat = _
  rw [BitVec.toNat_ushiftRight, Nat.shiftRight_eq_div_pow]; rfl
lemma toNat_shr18 (v : UInt32) : (v >>> 18).toNat = v.toNat / 262144 := by
  show (v.toBitVec >>> (18 : Nat)).toNat = _
  rw [BitVec.toNat_ushiftRight, Nat.shiftRight_eq_div_pow]; rfl

lemma val_le (c : Char) (n : UInt32) : c.val ≤ n ↔ c.toNat ≤ n.toNat := Iff.rfl

lemma utf8EncodeChar_toNat (c : Char) :
    (String.utf8EncodeChar c).map UInt8.toNat =
      if c.toNat ≤ 0x7f then [c.toNat]
      else if c.toNat ≤ 0x7ff then [c.toNat / 64 % 32 + 192, c.toNat % 64 + 128]
      else if c.toNat ≤ 0xffff then
        [c.toNat / 4096 % 16 + 224, c.toNat / 64 % 64 + 128, c.toNat % 64 + 128]
      else [c.toNat / 262144 % 8 + 240, c.toNat / 4096 % 64 + 128, c.toNat / 64 % 64 + 128,
        c.toNat % 64 + 128] := by
  have h6 (x : UInt8) : (x &&& 0x3f ||| 0x80).toNat = x.toNat % 64 + 128 :=
    toNat_mask_lor (k := 6) (m := 2) x 0x3f 0x80 rfl rfl
  have h5 (x : UInt8) : (x &&& 0x1f ||| 0xc0).toNat = x.toNat % 32 + 192 :=
    toNat_mask_lor (k := 5) (m := 6) x 0x1f 0xc0 rfl rfl
  have h4 (x : UInt8) : (x &&& 0x0f ||| 0xe0).toNat = x.toNat % 16 + 224 :=
    toNat_mask_lor (k := 4) (m := 14) x 0x0f 0xe0 rfl rfl
  have h3 (x : UInt8) : (x &&& 0x07 ||| 0xf0).toNat = x.toNat % 8 + 240 :=
    toNat_mask_lor (k := 3) (m := 30) x 0x07 0xf0 rfl rfl
  have hv : c.val.toNat = c.toNat := rfl
  simp only [String.utf8EncodeChar, val_le, show (0x7f : UInt32).toNat = 0x7f from rfl,
    show (0x7ff : UInt32).toNat = 0x7ff from rfl, show (0xffff : UInt32).toNat = 0xffff from rfl]
  have d64 : 64 ∣ 256 := by decide
  have d32 : 32 ∣ 256 := by decide
  have d16 : 16 ∣ 256 := by decide
  have d8 : 8 ∣ 256 := by decide
  split_ifs with h₁ <;> simp only [List.map_cons, List.map_nil, h6, h5, h4, h3, toNat_toUInt8,
    toNat_shr6, toNat_shr12, toNat_shr18, hv, Nat.mod_mod_of_dvd _ d64, Nat.mod_mod_of_dvd _ d32,
    Nat.mod_mod_of_dvd _ d16, Nat.mod_mod_of_dvd _ d8]
  rw [Nat.mod_eq_of_lt (by omega)]

/-- The bytes of an unescaped character of a JSON string are none of the bytes that end or
escape a string, nor control bytes. -/
lemma utf8EncodeChar_plain {c : Char}
    (hc : 0x20 ≤ c.val ∧ c.val ≤ 0x21 ∨ 0x23 ≤ c.val ∧ c.val ≤ 0x5B ∨ 0x5D ≤ c.val) :
    ∀ b ∈ String.utf8EncodeChar c, 0x20 ≤ b.toNat ∧ b.toNat ≠ 0x22 ∧ b.toNat ≠ 0x5C := by
  have hn : 0x20 ≤ c.toNat ∧ c.toNat ≤ 0x21 ∨ 0x23 ≤ c.toNat ∧ c.toNat ≤ 0x5B ∨ 0x5D ≤ c.toNat := hc
  intro b hb
  have hm := List.mem_map_of_mem UInt8.toNat hb
  rw [utf8EncodeChar_toNat] at hm
  split_ifs at hm
  · rw [List.mem_singleton] at hm
    omega
  all_goals
    clear hn
    simp only [List.mem_cons, List.mem_singleton, List.not_mem_nil, or_false] at hm
    omega

/-! ### Bytes against constants -/

lemma beq_eq_decide (a b : UInt8) : (a == b) = decide (a.toNat = b.toNat) := by
  rw [Bool.eq_iff_iff, beq_iff_eq, decide_eq_true_iff]
  exact ⟨congrArg _, UInt8.toNat.inj⟩

lemma le_iff_toNat_le (a b : UInt8) : a ≤ b ↔ a.toNat ≤ b.toNat := Iff.rfl

lemma isDigit_iff {b : UInt8} : isDigit b = true ↔ 48 ≤ b.toNat ∧ b.toNat ≤ 57 := by
  simp only [isDigit, Bool.and_eq_true, decide_eq_true_eq, le_iff_toNat_le]
  rfl

lemma isSpace_iff {b : UInt8} : isSpace b = true ↔ b = 32 ∨ b = 9 ∨ b = 10 ∨ b = 13 := by
  simp only [isSpace, Bool.or_eq_true, beq_iff_eq, or_assoc]

/-! ### What each piece of a text does to the scanner -/

lemma scanByte_of_step {s s' : Scan} {b : UInt8} {new : List Token} (ts : List Token)
    (h : step s b = some (s', new)) : scanByte (s, ts) b = some (s', ts ++ new) := by
  simp [scanByte, h]

lemma scan_cons {p p' : Scan × List Token} {b : UInt8} (h : scanByte p b = some p') (l : List UInt8) :
    (b :: l).foldlM scanByte p = l.foldlM scanByte p' := by
  rw [List.foldlM_cons, h]
  rfl

lemma scan_ws {a : List UInt8} (h : Ws a) (ts : List Token) :
    a.foldlM scanByte (.between, ts) = some (.between, ts) := by
  induction a with
  | nil => rfl
  | cons b a ih =>
    have hb : step .between b = some (.between, []) := by
      simp [step, start, h b (List.mem_cons_self _ _)]
    rw [List.foldlM_cons, scanByte_of_step ts hb, List.append_nil]
    exact ih fun x hx => h x (List.mem_cons_of_mem _ hx)

/-- The bytes `x` scan to the tokens `toks`, whatever comes after them. -/
def ScansAny (x : List UInt8) (toks : List Token) : Prop :=
  ∀ ts rest, tokensFrom (.between, ts) (x ++ rest) = tokensFrom (.between, ts ++ toks) rest

lemma ScansAny.append {x y : List UInt8} {t₁ t₂ : List Token} (hx : ScansAny x t₁)
    (hy : ScansAny y t₂) : ScansAny (x ++ y) (t₁ ++ t₂) := fun ts rest => by
  rw [List.append_assoc, hx, hy, List.append_assoc]

lemma scan_structural {c : UInt8} {x : List UInt8} {t : Token} (hx : Structural c x)
    (hc : step .between c = some (.between, [t])) : ScansAny x [t] := fun ts rest => by
  obtain ⟨ha, hb⟩ := hx
  rw [List.append_assoc, List.cons_append, tokensFrom_append, scan_ws ha]
  show tokensFrom _ _ = _
  rw [tokensFrom_cons, scanByte_of_step ts hc]
  show tokensFrom _ _ = _
  rw [tokensFrom_append, scan_ws hb]
  rfl

lemma scan_plain {l : List UInt8} (hl : ∀ b ∈ l, 0x20 ≤ b.toNat ∧ b.toNat ≠ 0x22 ∧ b.toNat ≠ 0x5C)
    (raw : List UInt8) (ts : List Token) :
    l.foldlM scanByte (.string raw, ts) = some (.string (l.reverse ++ raw), ts) := by
  induction l generalizing raw with
  | nil => rfl
  | cons b l ih =>
    obtain ⟨h1, h2, h3⟩ := hl b (List.mem_cons_self _ _)
    have hb : step (.string raw) b = some (.string (b :: raw), []) := by
      have hlt : ¬b < 32 := fun h => absurd (show b.toNat < 32 from h) (by omega)
      have h34 : (b == 34) = false := beq_eq_false_iff_ne.2 fun h => h2 (congrArg UInt8.toNat h)
      have h92 : (b == 92) = false := beq_eq_false_iff_ne.2 fun h => h3 (congrArg UInt8.toNat h)
      simp only [step, h34, h92, hlt, Bool.false_eq_true, if_false]
    rw [List.foldlM_cons, scanByte_of_step ts hb, List.append_nil]
    simpa using ih (fun x hx => hl x (List.mem_cons_of_mem _ hx)) (b :: raw)

lemma hexVal_isSome {b : UInt8} (h : isHexDigit b = true) : (hexVal b).isSome = true := by
  simp only [isHexDigit, isDigit, Bool.or_eq_true, Bool.and_eq_true, decide_eq_true_eq] at h
  unfold hexVal
  split_ifs <;> first | rfl | tauto

lemma step_hex {b : UInt8} (hb : isHexDigit b = true) (raw : List UInt8) (k : Nat) :
    step (.hex raw (k + 2)) b = some (.hex (b :: raw) (k + 1), []) := by
  simp [step, hexVal_isSome hb]

lemma step_hex_last {b : UInt8} (hb : isHexDigit b = true) (raw : List UInt8) :
    step (.hex raw 1) b = some (.string (b :: raw), []) := by
  simp [step, hexVal_isSome hb]

lemma step_escaped {e : UInt8} (he : e ∈ [0x22, 0x5C, 0x2F, 0x62, 0x66, 0x6E, 0x72, 0x74])
    (raw : List UInt8) : step (.escape raw) e = some (.string (e :: 92 :: raw), []) := by
  simp only [List.mem_cons, List.mem_singleton, List.not_mem_nil, or_false] at he
  rcases he with rfl | rfl | rfl | rfl | rfl | rfl | rfl | rfl <;> rfl

lemma step_backslash (raw : List UInt8) : step (.string raw) 92 = some (.escape raw, []) := rfl

lemma scan_strChar {c : List UInt8} (hc : StrChar c) (raw : List UInt8) (ts : List Token) :
    c.foldlM scanByte (.string raw, ts) = some (.string (c.reverse ++ raw), ts) := by
  cases hc with
  | unescaped ch hch => exact scan_plain (utf8EncodeChar_plain hch) raw ts
  | escaped he =>
    rw [scan_cons (scanByte_of_step ts (step_backslash raw)), List.append_nil,
      scan_cons (scanByte_of_step ts (step_escaped he raw)), List.append_nil]
    rfl
  | @unicode h hl hx =>
    match h, hl, hx with
    | [a, b, c, d], _, hx =>
      simp only [List.forall_mem_cons, List.forall_mem_nil] at hx
      obtain ⟨ha, hb, hc, hd, -⟩ := hx
      rw [scan_cons (scanByte_of_step ts (step_backslash raw)),
        scan_cons (scanByte_of_step _ (show step (.escape raw) 117 = some (.hex (117 :: 92 :: raw) 4, [])
          from rfl)),
        scan_cons (scanByte_of_step _ (step_hex ha _ 2)), scan_cons (scanByte_of_step _ (step_hex hb _ 1)),
        scan_cons (scanByte_of_step _ (step_hex hc _ 0)), scan_cons (scanByte_of_step _ (step_hex_last hd _))]
      simp only [List.append_nil]
      rfl

lemma scan_chars {cs : List UInt8} (hcs : Chars cs) (raw : List UInt8) (ts : List Token) :
    cs.foldlM scanByte (.string raw, ts) = some (.string (cs.reverse ++ raw), ts) := by
  induction hcs generalizing raw with
  | nil => rfl
  | cons hc _ ih =>
    rw [List.foldlM_append, scan_strChar hc raw ts]
    simpa using ih _

/-- A string adds one string token. -/
lemma scan_str {cs : List UInt8} (hcs : Chars cs) :
    ScansAny (0x22 :: cs ++ [0x22]) [.scalar (.string (unquote cs))] := fun ts rest => by
  simp only [List.cons_append, List.append_assoc, List.nil_append]
  rw [tokensFrom_cons, scanByte_of_step ts (show step .between 34 = some (.string [], []) from rfl),
    List.append_nil]
  show tokensFrom _ _ = _
  rw [tokensFrom_append, scan_chars hcs [] ts]
  show tokensFrom _ _ = _
  rw [tokensFrom_cons, scanByte_of_step ts (show step (.string (cs.reverse ++ [])) 34 =
    some (.between, [.scalar (.string (unquote cs))]) by simp [step])]
  rfl

/-! ### Numbers -/

lemma scan_num {l : List UInt8} {st st' : NumState} (h : l.foldlM NumState.next st = some st')
    (lit : List UInt8) (ts : List Token) :
    l.foldlM scanByte (.number st lit, ts) = some (.number st' (l.reverse ++ lit), ts) := by
  induction l generalizing st lit with
  | nil => cases h; rfl
  | cons b l ih =>
    rw [List.foldlM_cons] at h
    obtain ⟨st₁, h₁, h⟩ := Option.bind_eq_some.mp h
    rw [List.foldlM_cons, scanByte_of_step ts
      (show step (.number st lit) b = some (.number st₁ (b :: lit), []) by simp [step, h₁]),
      List.append_nil]
    simpa using ih h (b :: lit)

lemma next_cons {st st₁ : NumState} {b : UInt8} (h : st.next b = some st₁) (l : List UInt8) :
    (b :: l).foldlM NumState.next st = l.foldlM NumState.next st₁ := by
  rw [List.foldlM_cons, h]
  rfl

lemma beq_of_isDigit {d c : UInt8} (hd : isDigit d = true) (hc : isDigit c = false) : (d == c) = false := by
  rw [beq_eq_false_iff_ne]
  rintro rfl
  simp [hd] at hc

lemma next_digit {st : NumState} (hst : st = .digits ∨ st = .frac ∨ st = .expDigits) {d : UInt8}
    (hd : isDigit d = true) : st.next d = some st := by
  rcases hst with rfl | rfl | rfl <;> simp [NumState.next, hd]

lemma next_digits {st : NumState} (hst : st = .digits ∨ st = .frac ∨ st = .expDigits)
    {ds : List UInt8} (hds : ∀ x ∈ ds, isDigit x = true) : ds.foldlM NumState.next st = some st := by
  induction ds with
  | nil => rfl
  | cons d ds ih =>
    rw [List.forall_mem_cons] at hds
    rw [next_cons (next_digit hst hds.1)]
    exact ih hds.2

lemma next_int {i : List UInt8} (hi : IntPart i) :
    ∃ st, (st = .zero ∨ st = .digits) ∧ i.foldlM NumState.next .neg = some st := by
  cases hi with
  | zero => exact ⟨.zero, .inl rfl, rfl⟩
  | @digits d ds h₁ h₂ hds =>
    have hd : isDigit d = true := isDigit_iff.mpr ⟨le_trans (by decide) h₁, h₂⟩
    have h48 : (d == 48) = false := by
      rw [beq_eq_false_iff_ne]
      rintro rfl
      exact absurd h₁ (by decide)
    refine ⟨.digits, .inr rfl, ?_⟩
    rw [next_cons (show NumState.neg.next d = some .digits by simp [NumState.next, h48, hd])]
    exact next_digits (.inl rfl) hds

lemma next_frac {f : List UInt8} (hf : Frac f) {st : NumState} (hst : st = .zero ∨ st = .digits) :
    f.foldlM NumState.next st = some .frac := by
  obtain ⟨hd, hds⟩ := hf
  rw [next_cons (show st.next 46 = some .dot by rcases hst with rfl | rfl <;> rfl),
    next_cons (show NumState.dot.next _ = some .frac by simp [NumState.next, hd])]
  exact next_digits (.inr (.inl rfl)) hds

lemma next_exp {e : List UInt8} (he : Exp e) {st : NumState}
    (hst : st = .zero ∨ st = .digits ∨ st = .frac) : e.foldlM NumState.next st = some .expDigits := by
  obtain @⟨E, d, sign, ds, hE, hsign, hd, hds⟩ := he
  have hexp : NumState.exp.next d = some .expDigits := by
    simp [NumState.next, hd, beq_of_isDigit hd (show isDigit 43 = false from rfl),
      beq_of_isDigit hd (show isDigit 45 = false from rfl)]
  rw [List.cons_append, next_cons (show st.next E = some .exp by
    rcases hE with rfl | rfl <;> rcases hst with rfl | rfl | rfl <;> rfl)]
  have hsd : NumState.expSign.next d = some .expDigits := by simp [NumState.next, hd]
  have hrest := next_digits (.inr (.inr rfl)) hds
  rcases hsign with rfl | rfl | rfl
  · rw [List.nil_append, next_cons hexp, hrest]
  · rw [List.singleton_append, next_cons (show NumState.exp.next 45 = some .expSign from rfl),
      next_cons hsd, hrest]
  · rw [List.singleton_append, next_cons (show NumState.exp.next 43 = some .expSign from rfl),
      next_cons hsd, hrest]

/-- The integer part, fraction and exponent of a number take the scanner from its sign to a state
where the number may end. -/
lemma next_number {i f e : List UInt8} (hi : IntPart i) (hf : f = [] ∨ Frac f) (he : e = [] ∨ Exp e) :
    ∃ st, st.complete = true ∧ (i ++ f ++ e).foldlM NumState.next .neg = some st := by
  obtain ⟨st₁, h₁, hi⟩ := next_int hi
  obtain ⟨st₂, h₂, hf⟩ : ∃ st₂, (st₂ = .zero ∨ st₂ = .digits ∨ st₂ = .frac) ∧
      (i ++ f).foldlM NumState.next .neg = some st₂ := by
    rcases hf with rfl | hf
    · exact ⟨st₁, by rcases h₁ with rfl | rfl <;> simp, by simpa using hi⟩
    · exact ⟨.frac, by simp, by rw [List.foldlM_append, hi]; exact next_frac hf h₁⟩
  rcases he with rfl | he
  · exact ⟨st₂, by rcases h₂ with rfl | rfl | rfl <;> rfl, by simpa using hf⟩
  · exact ⟨.expDigits, rfl, by rw [List.foldlM_append, hf]; exact next_exp he h₂⟩

lemma start_digit {b : UInt8} (hb : isDigit b = true) :
    start b = (NumState.neg.next b).map fun st => (.number st [b], []) := by
  obtain ⟨h1, h2⟩ := isDigit_iff.mp hb
  obtain ⟨k, hk, rfl⟩ : ∃ k < 256, b = UInt8.ofNat k :=
    ⟨b.toNat, b.toNat_lt_size, UInt8.toNat.inj (UInt8.toNat_ofNat_of_lt b.toNat_lt_size).symm⟩
  rw [UInt8.toNat_ofNat_of_lt hk] at h1 h2
  interval_cases k <;> rfl

lemma isDigit_of_next_neg {b : UInt8} {st : NumState} (h : NumState.neg.next b = some st) :
    isDigit b = true := by
  simp only [NumState.next] at h
  split_ifs at h with h48 hd
  · rw [beq_iff_eq] at h48
    subst h48
    rfl
  · exact hd

lemma scan_num_start {l : List UInt8} {st : NumState} (h : l.foldlM NumState.next .neg = some st)
    (hl : l ≠ []) (ts : List Token) :
    l.foldlM scanByte (.between, ts) = some (.number st l.reverse, ts) := by
  obtain _ | ⟨b, l⟩ := l
  · exact absurd rfl hl
  rw [List.foldlM_cons] at h
  obtain ⟨st₀, h₀, h⟩ := Option.bind_eq_some.mp h
  have hb : step .between b = some (.number st₀ [b], []) := by
    rw [step, start_digit (isDigit_of_next_neg h₀), h₀]
    rfl
  rw [scan_cons (scanByte_of_step ts hb), List.append_nil, scan_num h]
  simp

/-- A number leaves the scanner inside it, in a state where it may end. -/
lemma scan_number {n : List UInt8} (hn : Number n) (ts : List Token) :
    ∃ st, st.complete = true ∧ n.foldlM scanByte (.between, ts) = some (.number st n.reverse, ts) := by
  obtain @⟨m, i, f, e, hm, hi, hf, he⟩ := hn
  obtain ⟨st, hst, h⟩ := next_number hi hf he
  refine ⟨st, hst, ?_⟩
  have hi₀ : i ≠ [] := by cases hi <;> simp
  rcases hm with rfl | rfl
  · simpa using scan_num_start h (by simp [hi₀]) ts
  · rw [List.append_assoc, List.append_assoc, List.singleton_append,
      scan_cons (scanByte_of_step ts (show step .between 45 = some (.number .neg [45], []) from rfl)),
      List.append_nil, ← List.append_assoc, scan_num h]
    simp

/-- What may follow a value in a JSON text: white space, a comma, a closing bracket, or the end. -/
def Follow (rest : List UInt8) : Prop := ∀ b ∈ rest.head?, isSpace b = true ∨ b = 44 ∨ b = 93 ∨ b = 125

lemma next_follow {b : UInt8} (hb : isSpace b = true ∨ b = 44 ∨ b = 93 ∨ b = 125) (st : NumState) :
    st.next b = none := by
  rw [isSpace_iff] at hb
  rcases hb with (rfl | rfl | rfl | rfl) | rfl | rfl | rfl <;> cases st <;> rfl

/-- A number ends at the byte after it, which adds its own tokens after the number's. -/
lemma scan_number_end {st : NumState} {lit rest : List UInt8} (hst : st.complete = true)
    (hr : Follow rest) (ts : List Token) :
    tokensFrom (.number st lit, ts) rest = tokensFrom (.between, ts ++ [numberToken lit]) rest := by
  cases rest with
  | nil => simp [tokensFrom_nil, finish, hst]
  | cons b rest =>
    rw [tokensFrom_cons, tokensFrom_cons]
    simp only [scanByte, step, next_follow (hr b rfl), hst, if_true]
    cases start b <;> simp

lemma scan_word_rest {cs : List UInt8} (hcs : cs ≠ []) (v : Value) (ts : List Token) :
    cs.foldlM scanByte (.word cs v, ts) = some (.between, ts ++ [.scalar v]) := by
  induction cs with
  | nil => exact absurd rfl hcs
  | cons c cs ih =>
    cases cs with
    | nil => simp [scanByte, step]
    | cons c' cs =>
      rw [scan_cons (scanByte_of_step ts (show step (.word (c :: c' :: cs) v) c =
        some (.word (c' :: cs) v, []) by simp [step])), List.append_nil]
      exact ih (List.cons_ne_nil _ _)

lemma scan_word {c : UInt8} {cs : List UInt8} {v : Value} (h : step .between c = some (.word cs v, []))
    (hcs : cs ≠ []) : ScansAny (c :: cs) [.scalar v] := fun ts rest => by
  rw [List.cons_append, tokensFrom_cons, scanByte_of_step ts h, List.append_nil]
  show tokensFrom _ _ = _
  rw [tokensFrom_append, scan_word_rest hcs v ts]
  rfl

/-! ### Values -/

lemma follow_ws {a rest : List UInt8} (ha : Ws a) (hr : Follow rest) : Follow (a ++ rest) := by
  cases a with
  | nil => exact hr
  | cons b a =>
    intro x hx
    cases hx
    exact .inl (ha b (List.mem_cons_self _ _))

lemma follow_structural {c : UInt8} {x : List UInt8} (hx : Structural c x)
    (hc : c = 44 ∨ c = 93 ∨ c = 125) (rest : List UInt8) : Follow (x ++ rest) := by
  obtain ⟨ha, -⟩ := hx
  rw [List.append_assoc, List.cons_append]
  exact follow_ws ha fun b hb => by cases hb; exact .inr hc

/-- The bytes `x` scan to the tokens `toks` when what comes after them may follow a value. -/
def Scans (x : List UInt8) (toks : List Token) : Prop :=
  ∀ ts rest, Follow rest → tokensFrom (.between, ts) (x ++ rest) = tokensFrom (.between, ts ++ toks) rest

section
variable {x y : List UInt8} {t₁ t₂ : List Token}

lemma ScansAny.scans (h : ScansAny x t₁) : Scans x t₁ := fun ts rest _ => h ts rest

lemma ScansAny.append_scans (hx : ScansAny x t₁) (hy : Scans y t₂) : Scans (x ++ y) (t₁ ++ t₂) :=
  fun ts rest hr => by rw [List.append_assoc, hx, hy _ _ hr, List.append_assoc]

lemma Scans.append_any (hx : Scans x t₁) (hy : ScansAny y t₂) (hf : ∀ rest, Follow (y ++ rest)) :
    ScansAny (x ++ y) (t₁ ++ t₂) :=
  fun ts rest => by rw [List.append_assoc, hx _ _ (hf rest), hy, List.append_assoc]

end

lemma scans_number {n : List UInt8} (hn : Number n) : Scans n [numberToken n.reverse] :=
  fun ts rest hr => by
    obtain ⟨st, hst, h⟩ := scan_number hn ts
    rw [tokensFrom_append, h]
    exact scan_number_end hst hr ts

/-! ### The parser on a value's tokens -/

lemma shift_cons {p p' : List Open × Expect} {t : Token} (h : shift p t = some p') (l : List Token) :
    (t :: l).foldlM shift p = l.foldlM shift p' := by
  rw [List.foldlM_cons, h]
  rfl

lemma shift_begin {st : List Open} {e : Expect} (he : e = .value ∨ e = .valueOrEnd) (t : Token)
    (ht : t ≠ .endArray) : shift (st, e) t = begin st t := by
  rcases he with rfl | rfl <;> rcases st with _ | ⟨_ | _, _⟩ <;> cases t <;>
    first | rfl | exact absurd rfl ht

/-- The tokens `toks` are those of the value `v`: from wherever a value may begin, they close `v`
into the container that is open, whatever lies below it. -/
def ValueToks (v : Value) (toks : List Token) : Prop :=
  ∀ st e, (e = .value ∨ e = .valueOrEnd) → toks.foldlM shift (st, e) = some (close v st)

/-- The tokens of members, after an object's `{` or a comma: they add the fields `gs`, last
first, to the object that is open, and leave `k` as its last key. -/
def MemberToks (gs : List (String × Value)) (k : String) (toks : List Token) : Prop :=
  ∀ st fs k₀ e, (e = .key ∨ e = .keyOrEnd) →
    toks.foldlM shift (.object fs k₀ :: st, e) = some (.object (gs ++ fs) k :: st, .commaOrEnd)

/-- The tokens of elements, after an array's `[` or a comma: they add the values `ys`, last
first, to the array that is open. -/
def ElementToks (ys : List Value) (toks : List Token) : Prop :=
  ∀ st xs e, (e = .value ∨ e = .valueOrEnd) →
    toks.foldlM shift (.array xs :: st, e) = some (.array (ys ++ xs) :: st, .commaOrEnd)

lemma valueToks_scalar (v : Value) : ValueToks v [.scalar v] := fun _ _ he => by
  rw [shift_cons (shift_begin he (.scalar v) nofun)]
  rfl

lemma valueToks_emptyObject : ValueToks (.object []) [.beginObject, .endObject] := fun _ _ he => by
  rw [shift_cons (shift_begin he .beginObject nofun)]
  rfl

lemma valueToks_object {gs : List (String × Value)} {k : String} {toks : List Token}
    (h : MemberToks gs k toks) :
    ValueToks (.object gs.reverse) ([.beginObject] ++ toks ++ [.endObject]) := fun st _ he => by
  rw [List.singleton_append, List.cons_append, shift_cons (shift_begin he .beginObject nofun),
    List.foldlM_append, h st [] "" .keyOrEnd (.inr rfl), List.append_nil]
  rfl

lemma valueToks_emptyArray : ValueToks (.array []) [.beginArray, .endArray] := fun _ _ he => by
  rw [shift_cons (shift_begin he .beginArray nofun)]
  rfl

lemma valueToks_array {ys : List Value} {toks : List Token} (h : ElementToks ys toks) :
    ValueToks (.array ys.reverse) ([.beginArray] ++ toks ++ [.endArray]) := fun st _ he => by
  rw [List.singleton_append, List.cons_append, shift_cons (shift_begin he .beginArray nofun),
    List.foldlM_append, h st [] .valueOrEnd (.inr rfl), List.append_nil]
  rfl

lemma shift_key {st : List Open} {fs : List (String × Value)} {k₀ k : String} {e : Expect}
    (he : e = .key ∨ e = .keyOrEnd) :
    shift (.object fs k₀ :: st, e) (.scalar (.string k)) = some (.object fs k :: st, .colon) := by
  rcases he with rfl | rfl <;> rfl

lemma shift_colon (st : List Open) : shift (st, .colon) .colon = some (st, .value) := by
  rcases st with _ | ⟨_ | _, _⟩ <;> rfl

lemma shift_comma_object (st : List Open) (fs : List (String × Value)) (k : String) :
    shift (.object fs k :: st, .commaOrEnd) .comma = some (.object fs k :: st, .key) := rfl

lemma shift_comma_array (st : List Open) (xs : List Value) :
    shift (.array xs :: st, .commaOrEnd) .comma = some (.array xs :: st, .value) := rfl

lemma memberToks_one (k : String) {v : Value} {toks : List Token} (h : ValueToks v toks) :
    MemberToks [(k, v)] k ([.scalar (.string k)] ++ [.colon] ++ toks) := fun st fs _ _ he => by
  rw [List.singleton_append, List.cons_append, shift_cons (shift_key he), List.singleton_append,
    shift_cons (shift_colon _), h _ .value (.inl rfl)]
  rfl

lemma memberToks_cons (k : String) {v : Value} {gs : List (String × Value)} {k' : String}
    {t₁ t₂ : List Token} (hv : ValueToks v t₁) (hms : MemberToks gs k' t₂) :
    MemberToks (gs ++ [(k, v)]) k' ([.scalar (.string k)] ++ [.colon] ++ t₁ ++ [.comma] ++ t₂) :=
  fun st fs _ _ he => by
    simp only [List.append_assoc, List.singleton_append, List.cons_append, List.nil_append]
    rw [shift_cons (shift_key he), shift_cons (shift_colon _), List.foldlM_append,
      hv _ .value (.inl rfl)]
    show (Token.comma :: t₂).foldlM shift (.object ((k, v) :: fs) k :: st, .commaOrEnd) = _
    rw [shift_cons (shift_comma_object ..), hms st ((k, v) :: fs) k .key (.inl rfl)]

lemma elementToks_one {v : Value} {toks : List Token} (h : ValueToks v toks) :
    ElementToks [v] toks := fun _ _ _ he => h _ _ he

lemma elementToks_cons {v : Value} {ys : List Value} {t₁ t₂ : List Token} (hv : ValueToks v t₁)
    (hs : ElementToks ys t₂) : ElementToks (ys ++ [v]) (t₁ ++ [.comma] ++ t₂) := fun st xs _ he => by
  rw [List.append_assoc, List.foldlM_append, hv _ _ he]
  show ([Token.comma] ++ t₂).foldlM shift (.array (v :: xs) :: st, .commaOrEnd) = _
  rw [List.singleton_append, shift_cons (shift_comma_array ..), hs st (v :: xs) .value (.inl rfl),
    List.append_assoc]
  rfl

/-! ### Every derivation decodes -/

def ValueDecodes (x : List UInt8) : Prop := ∃ toks v, Scans x toks ∧ ValueToks v toks

def MembersDecode (x : List UInt8) : Prop := ∃ toks gs k, Scans x toks ∧ MemberToks gs k toks

def ElementsDecode (x : List UInt8) : Prop := ∃ toks ys, Scans x toks ∧ ElementToks ys toks

section
variable {b e ms vs : List UInt8}

lemma decodes_word {c : UInt8} {cs : List UInt8} {v : Value}
    (h : step .between c = some (.word cs v, [])) (hcs : cs ≠ []) : ValueDecodes (c :: cs) :=
  ⟨_, _, (scan_word h hcs).scans, valueToks_scalar v⟩

lemma decodes_emptyObject (hb : Structural 0x7B b) (he : Structural 0x7D e) : ValueDecodes (b ++ e) :=
  ⟨_, _, ((scan_structural hb rfl).append (scan_structural he rfl)).scans, valueToks_emptyObject⟩

lemma decodes_object (hb : Structural 0x7B b) (hms : MembersDecode ms) (he : Structural 0x7D e) :
    ValueDecodes (b ++ ms ++ e) := by
  obtain ⟨_, _, _, hs, hm⟩ := hms
  exact ⟨_, _, (((scan_structural hb rfl).append_scans hs).append_any (scan_structural he rfl)
    (follow_structural he (by decide))).scans, valueToks_object hm⟩

lemma decodes_emptyArray (hb : Structural 0x5B b) (he : Structural 0x5D e) : ValueDecodes (b ++ e) :=
  ⟨_, _, ((scan_structural hb rfl).append (scan_structural he rfl)).scans, valueToks_emptyArray⟩

lemma decodes_array (hb : Structural 0x5B b) (hvs : ElementsDecode vs) (he : Structural 0x5D e) :
    ValueDecodes (b ++ vs ++ e) := by
  obtain ⟨_, _, hs, hv⟩ := hvs
  exact ⟨_, _, (((scan_structural hb rfl).append_scans hs).append_any (scan_structural he rfl)
    (follow_structural he (by decide))).scans, valueToks_array hv⟩

lemma decodes_number {n : List UInt8} (hn : Number n) : ValueDecodes n :=
  ⟨_, _, scans_number hn, valueToks_scalar _⟩

lemma decodes_string {s : List UInt8} (hs : Str s) : ValueDecodes s := by
  obtain ⟨hcs⟩ := hs
  exact ⟨_, _, (scan_str hcs).scans, valueToks_scalar _⟩

lemma decodes_member {s n v : List UInt8} (hs : Str s) (hn : Structural 0x3A n) (hv : ValueDecodes v) :
    ∃ k toks val, Scans (s ++ n ++ v) ([.scalar (.string k)] ++ [.colon] ++ toks) ∧ ValueToks val toks := by
  obtain ⟨hcs⟩ := hs
  obtain ⟨toks, val, hsv, hval⟩ := hv
  exact ⟨_, toks, val, ((scan_str hcs).append (scan_structural hn rfl)).append_scans hsv, hval⟩

lemma decodes_membersOne {s n v : List UInt8} (hs : Str s) (hn : Structural 0x3A n)
    (hv : ValueDecodes v) : MembersDecode (s ++ n ++ v) := by
  obtain ⟨k, _, _, hsc, hval⟩ := decodes_member hs hn hv
  exact ⟨_, _, _, hsc, memberToks_one k hval⟩

lemma decodes_membersCons {s n v c : List UInt8} (hs : Str s) (hn : Structural 0x3A n)
    (hv : ValueDecodes v) (hc : Structural 0x2C c) (hms : MembersDecode ms) :
    MembersDecode (s ++ n ++ v ++ c ++ ms) := by
  obtain ⟨k, _, _, hsc, hval⟩ := decodes_member hs hn hv
  obtain ⟨_, _, _, hsms, hm⟩ := hms
  exact ⟨_, _, _, (hsc.append_any (scan_structural hc rfl) (follow_structural hc (by decide))).append_scans hsms,
    memberToks_cons k hval hm⟩

lemma decodes_elementsOne {v : List UInt8} (hv : ValueDecodes v) : ElementsDecode v := by
  obtain ⟨_, _, hs, hval⟩ := hv
  exact ⟨_, _, hs, elementToks_one hval⟩

lemma decodes_elementsCons {v c : List UInt8} (hv : ValueDecodes v) (hc : Structural 0x2C c)
    (hvs : ElementsDecode vs) : ElementsDecode (v ++ c ++ vs) := by
  obtain ⟨_, _, hs, hval⟩ := hv
  obtain ⟨_, _, hss, hel⟩ := hvs
  exact ⟨_, _, (hs.append_any (scan_structural hc rfl) (follow_structural hc (by decide))).append_scans hss,
    elementToks_cons hval hel⟩

end

/-- Every derivation of a value decodes, by recursion over the derivation. -/
lemma decodes_of_value {x : List UInt8} (h : JsonText.Value x) : ValueDecodes x :=
  @JsonText.Value.rec (fun x _ => ValueDecodes x) (fun x _ => MembersDecode x)
    (fun x _ => ElementsDecode x)
    (decodes_word rfl (by decide)) (decodes_word rfl (by decide)) (decodes_word rfl (by decide))
    decodes_emptyObject (fun hb _ he ih => decodes_object hb ih he) decodes_emptyArray
    (fun hb _ he ih => decodes_array hb ih he) decodes_number decodes_string
    (fun hs hn _ ih => decodes_membersOne hs hn ih)
    (fun hs hn _ hc _ ihv ihms => decodes_membersCons hs hn ihv hc ihms)
    (fun _ ih => decodes_elementsOne ih) (fun _ hc _ ihv ihvs => decodes_elementsCons ihv hc ihvs) x h

/-! ### Texts -/

lemma tokensFrom_ws {a : List UInt8} (ha : Ws a) (ts : List Token) (rest : List UInt8) :
    tokensFrom (.between, ts) (a ++ rest) = tokensFrom (.between, ts) rest := by
  rw [tokensFrom_append, scan_ws ha]
  rfl

lemma parse_of_scans {a x b : List UInt8} {toks : List Token} {v : Value} (ha : Ws a) (hb : Ws b)
    (hs : Scans x toks) (hv : ValueToks v toks) : parse (a ++ x ++ b) = some v := by
  have htoks : tokens (a ++ x ++ b) = some toks := by
    have hend : Follow (b ++ []) := follow_ws hb fun _ h => by cases h
    rw [tokens_eq, List.append_assoc, tokensFrom_ws ha, ← List.append_nil b, hs [] _ hend,
      tokensFrom_ws hb, tokensFrom_nil]
    simp [finish]
  rw [parse, htoks]
  show (do match ← toks.foldlM shift ([], .value) with
    | ([], .done v) => some v
    | _ => none) = _
  rw [hv [] .value (.inl rfl)]
  rfl

/-- A JSON text scans to its value's tokens, which the parser closes into that value. -/
lemma parse_of_text {raw : List UInt8} (h : Text raw) : ∃ v, parse raw = some v := by
  obtain ⟨ha, hx, hb⟩ := h
  obtain ⟨toks, v, hs, hv⟩ := decodes_of_value hx
  exact ⟨v, parse_of_scans ha hb hs hv⟩

lemma unmarshalStruct_ne_malformed {T : Type} (fields : List (String × (Value → T → Option T)))
    (zero : T) {raw : List UInt8} {v : Value} (h : parse raw = some v) :
    unmarshalStruct fields zero raw ≠ .error .malformed := by
  rw [unmarshalStruct, h]
  cases v <;> dsimp only <;> (try split) <;> nofun

/-- **Every JSON text decodes**: `json.Unmarshal` finds a value in it, so neither a struct of
`worker.go` nor a `JsMap` is ever refused one as a syntax error. -/
theorem json_text_decodes {raw : List UInt8} (h : Text raw) :
    (∃ v, parse raw = some v) ∧
      (∀ {T : Type} (fields : List (String × (Value → T → Option T))) (zero : T),
        unmarshalStruct fields zero raw ≠ .error .malformed) ∧
      unmarshalMap raw ≠ .error .malformed := by
  obtain ⟨v, hv⟩ := parse_of_text h
  refine ⟨⟨v, hv⟩, fun fields zero => unmarshalStruct_ne_malformed fields zero hv, ?_⟩
  rw [unmarshalMap, hv]
  cases v <;> dsimp only <;> (try split) <;> nofun

/-- `{}` is a JSON text, and it decodes. -/
theorem empty_object_decodes :
    Text [123, 125] ∧ (∃ v, parse [123, 125] = some v) ∧
      (∀ {T : Type} (fields : List (String × (Value → T → Option T))) (zero : T),
        unmarshalStruct fields zero [123, 125] ≠ .error .malformed) ∧
      unmarshalMap [123, 125] ≠ .error .malformed :=
  have ht : Text [123, 125] :=
    @Text.mk [] [123, 125] [] ws_nil (@JsonText.Value.emptyObject [123] [125]
      (@Structural.mk _ [] [] ws_nil ws_nil) (@Structural.mk _ [] [] ws_nil ws_nil)) ws_nil
  ⟨ht, json_text_decodes ht⟩

/-! ### The receive loop on a JSON text -/

lemma isPingBody_snd_of_text {raw : List UInt8} (h : Text raw) : (isPingBody raw).2 = none := by
  by_cases ha : raw.all braceOrSpace
  · rw [isPingBody_eq_ping_iff.2 (.inr (.inr (.inl ((padded_iff_visible (o := 123) (c := 125) rfl rfl).1
      (padded_of_text h (List.all_eq_true.1 ha))))))]
  · unfold isPingBody
    split
    · rfl
    · rw [countBraces_eq, if_neg ha]

/-- **A JSON text is always answered**: the receive loop hands every frame that is a JSON text to
a handler, or answers it as an unknown command; it never drops one as malformed, as a bad
payload or as empty. -/
theorem route_of_json_text {raw : List UInt8} (h : Text raw) :
    route (.ok raw) = .mistyped raw ∨ ∃ hd, route (.ok raw) = .dispatch hd raw := by
  obtain ⟨v, hv⟩ := parse_of_text h
  have hne : raw.length ≠ 0 := by
    intro hl
    rw [List.length_eq_zero.1 hl] at hv
    cases hv
  have hp := isPingBody_snd_of_text h
  have hm := unmarshalStruct_ne_malformed
    [("messageType", fun v h => (intoString v h.type).map RequestHeader.mk)] ⟨""⟩ hv
  simp only [route, if_neg hne]
  generalize isPingBody raw = pb at hp ⊢
  obtain ⟨_ | _, p⟩ := pb
  · cases hp
    dsimp only
    split
    · exact .inl rfl
    · exact absurd ‹_› hm
    · exact .inr ⟨_, rfl⟩
  · cases hp
    exact .inr ⟨_, rfl⟩

theorem empty_object_routed :
    Text [123, 125] ∧ (route (.ok [123, 125]) = .mistyped [123, 125] ∨
      ∃ hd, route (.ok [123, 125]) = .dispatch hd [123, 125]) :=
  have ht : Text [123, 125] :=
    @Text.mk [] [123, 125] [] ws_nil (@JsonText.Value.emptyObject [123] [125]
      (@Structural.mk _ [] [] ws_nil ws_nil) (@Structural.mk _ [] [] ws_nil ws_nil)) ws_nil
  ⟨ht, route_of_json_text ht⟩

end SimplePush.JsonAccept
