import SimplePush.JsonRoundTrip

/-!
The numbers `json.Unmarshal` reads are JSON numbers, so what it reads `json.Marshal` writes back.

The scanner ends a number only in a state where the bytes it has read make a JSON number: each
state of the number automaton stands after a part of `number = [ minus ] int [ frac ] [ exp ]`,
and each byte the automaton takes extends that part. The literals `true`, `false` and `null`
carry no number, and the parser only moves the values of tokens into containers. So every
value the decoder returns has JSON numbers for its numbers, and by `JsonRoundTrip` the encoder
writes it as a JSON text that the decoder reads back as the same value.
-/

namespace SimplePush.JsonSound

open SimplePush.Json SimplePush.JsonText SimplePush.JsonAccept SimplePush.JsonRoundTrip
open SimplePush.Encode

/-! ### The number automaton -/

/-- `[ minus ] int [ frac ]`, a number up to its exponent. -/
inductive Mantissa : List UInt8 → Prop
  | mk {m i f : List UInt8} : m = [] ∨ m = [0x2D] → IntPart i → f = [] ∨ Frac f →
      Mantissa (m ++ i ++ f)

lemma Mantissa.int {m i : List UInt8} (hm : m = [] ∨ m = [0x2D]) (hi : IntPart i) :
    Mantissa (m ++ i) := by
  simpa using Mantissa.mk hm hi (.inl rfl)

/-- The bytes of a number the automaton has read, by the state it is in. -/
inductive NumPrefix : NumState → List UInt8 → Prop
  | neg : NumPrefix .neg [0x2D]
  | zero {m : List UInt8} : m = [] ∨ m = [0x2D] → NumPrefix .zero (m ++ [0x30])
  | digits {m i : List UInt8} : m = [] ∨ m = [0x2D] → IntPart i → i ≠ [0x30] →
      NumPrefix .digits (m ++ i)
  | dot {m i : List UInt8} : m = [] ∨ m = [0x2D] → IntPart i → NumPrefix .dot (m ++ i ++ [0x2E])
  | frac {m i f : List UInt8} : m = [] ∨ m = [0x2D] → IntPart i → Frac f →
      NumPrefix .frac (m ++ i ++ f)
  | exp {p : List UInt8} {e : UInt8} : Mantissa p → e = 0x65 ∨ e = 0x45 → NumPrefix .exp (p ++ [e])
  | expSign {p : List UInt8} {e s : UInt8} : Mantissa p → e = 0x65 ∨ e = 0x45 →
      s = 0x2B ∨ s = 0x2D → NumPrefix .expSign (p ++ [e, s])
  | expDigits {p e : List UInt8} : Mantissa p → Exp e → NumPrefix .expDigits (p ++ e)

lemma intPart_one {b : UInt8} (hd : isDigit b = true) (h0 : ¬(b == 48) = true) : IntPart [b] := by
  have hb := isDigit_iff.1 hd
  have hne : b.toNat ≠ 48 := fun h => h0 (by rw [beq_eq_decide, h]; rfl)
  exact .digits ((le_iff_toNat_le _ _).2 (show 49 ≤ b.toNat by omega)) ((le_iff_toNat_le _ _).2 hb.2)
    nofun

lemma intPart_snoc {i : List UInt8} {b : UInt8} (hi : IntPart i) (hne : i ≠ [0x30])
    (hb : isDigit b = true) : IntPart (i ++ [b]) ∧ i ++ [b] ≠ [0x30] := by
  cases hi with
  | zero => exact absurd rfl hne
  | digits h₁ h₂ hs =>
    refine ⟨.digits h₁ h₂ (List.forall_mem_append.2 ⟨hs, List.forall_mem_singleton.2 hb⟩), ?_⟩
    simp

lemma frac_snoc {f : List UInt8} {b : UInt8} (hf : Frac f) (hb : isDigit b = true) :
    Frac (f ++ [b]) := by
  obtain ⟨hd, hs⟩ := hf
  exact .mk hd (List.forall_mem_append.2 ⟨hs, List.forall_mem_singleton.2 hb⟩)

lemma exp_snoc {e : List UInt8} {b : UInt8} (he : Exp e) (hb : isDigit b = true) :
    Exp (e ++ [b]) := by
  obtain ⟨hE, hsign, hd, hs⟩ := he
  simpa using Exp.mk hE hsign hd (List.forall_mem_append.2 ⟨hs, List.forall_mem_singleton.2 hb⟩)

/-- **One byte of a number**: the byte the automaton takes extends the part of a number its
state stands after. -/
lemma NumPrefix.next {st st' : NumState} {bs : List UInt8} {b : UInt8} (h : NumPrefix st bs)
    (hn : st.next b = some st') : NumPrefix st' (bs ++ [b]) := by
  cases h with
  | neg =>
    simp only [NumState.next] at hn
    split_ifs at hn with h48 hd <;> cases hn
    · rw [eq_of_beq h48]; exact .zero (.inr rfl)
    · exact .digits (.inr rfl) (intPart_one hd h48)
        fun h => h48 (by rw [List.singleton_inj.1 h]; rfl)
  | zero hm =>
    simp only [NumState.next] at hn
    split_ifs at hn with h46 he <;> cases hn
    · rw [eq_of_beq h46]; exact .dot hm .zero
    · exact .exp (.int hm .zero) (by simpa using he)
  | digits hm hi hne =>
    simp only [NumState.next] at hn
    split_ifs at hn with hd h46 he <;> cases hn
    · rw [List.append_assoc]
      exact .digits hm (intPart_snoc hi hne hd).1 (intPart_snoc hi hne hd).2
    · rw [eq_of_beq h46]; exact .dot hm hi
    · exact .exp (.int hm hi) (by simpa using he)
  | dot hm hi =>
    simp only [NumState.next] at hn
    split_ifs at hn with hd
    cases hn
    rw [List.append_assoc]
    exact .frac hm hi (.mk hd nofun)
  | frac hm hi hf =>
    simp only [NumState.next] at hn
    split_ifs at hn with hd he <;> cases hn
    · rw [List.append_assoc]
      exact .frac hm hi (frac_snoc hf hd)
    · exact .exp (.mk hm hi (.inr hf)) (by simpa using he)
  | exp hp he =>
    simp only [NumState.next] at hn
    split_ifs at hn with hs hd <;> cases hn
    · rw [List.append_assoc]
      exact .expSign hp he (by simpa using hs)
    · rw [List.append_assoc]
      exact .expDigits hp (.mk he (.inl rfl) hd nofun)
  | expSign hp he hs =>
    simp only [NumState.next] at hn
    split_ifs at hn with hd
    cases hn
    rw [List.append_assoc]
    exact .expDigits hp (.mk he (by rcases hs with rfl | rfl <;> simp) hd nofun)
  | expDigits hp he =>
    simp only [NumState.next] at hn
    split_ifs at hn with hd
    cases hn
    rw [List.append_assoc]
    exact .expDigits hp (exp_snoc he hd)

/-- **A number ends only when it is one**: in a state where a number may end, the bytes read
are a JSON number. -/
lemma NumPrefix.number {st : NumState} {bs : List UInt8} (h : NumPrefix st bs)
    (hc : st.complete = true) : Number bs := by
  cases h with
  | zero hm => simpa using Number.mk hm .zero (.inl rfl) (.inl rfl)
  | digits hm hi _ => simpa using Number.mk hm hi (.inl rfl) (.inl rfl)
  | frac hm hi hf => simpa using Number.mk hm hi (.inr hf) (.inl rfl)
  | expDigits hp he =>
    obtain ⟨hm, hi, hf⟩ := hp
    exact Number.mk hm hi hf (.inr he)
  | _ => cases hc

/-! ### The scanner -/

/-- What the scanner holds between two bytes: inside a number, the bytes read so far fit its
state; inside a literal, the value it will give has no number. -/
def ScanOk : Scan → Prop
  | .number st lit => NumPrefix st lit.reverse
  | .word _ v => NumbersValid v
  | _ => True

/-- A token's value, if it has one, has JSON numbers for its numbers. -/
def TokenOk : Token → Prop
  | .scalar v => NumbersValid v
  | _ => True

lemma utf8EncodeChar_ofNat {b : UInt8} (h : b.toNat < 0x80) :
    String.utf8EncodeChar (Char.ofNat b.toNat) = [b] := by
  have hc : (Char.ofNat b.toNat).toNat = b.toNat := by
    rw [Char.ofNat, dif_pos (Or.inl (by omega))]
    rfl
  have hm := utf8EncodeChar_toNat (Char.ofNat b.toNat)
  rw [if_pos (by omega), hc, List.map_eq_cons_iff] at hm
  obtain ⟨x, l, hl, hx, hl'⟩ := hm
  rw [List.map_eq_nil_iff] at hl'
  rw [hl, hl', UInt8.toNat.inj hx]

lemma bytes_ofBytes (l : List UInt8) (h : ∀ b ∈ l, b.toNat < 0x80) :
    bytes ⟨l.map fun b => Char.ofNat b.toNat⟩ = l := by
  induction l with
  | nil => rfl
  | cons b l ih =>
    rw [List.forall_mem_cons] at h
    show String.utf8EncodeChar _ ++ bytes ⟨l.map _⟩ = b :: l
    rw [utf8EncodeChar_ofNat h.1, ih h.2]
    rfl

lemma numberToken_ok {st : NumState} {lit : List UInt8} (h : NumPrefix st lit.reverse)
    (hc : st.complete = true) : TokenOk (numberToken lit) := by
  have hn := h.number hc
  show NumbersValid (.number ⟨lit.reverse.map fun b => Char.ofNat b.toNat⟩)
  exact .number (by rwa [bytes_ofBytes _ (ascii_of_number hn)])

lemma ite_some {α : Type} {c : Prop} [Decidable c] {a x : α} {e : Option α}
    (h : (if c then some a else e) = some x) : c ∧ a = x ∨ ¬c ∧ e = some x := by
  by_cases hc : c
  · rw [if_pos hc] at h
    exact .inl ⟨hc, Option.some.inj h⟩
  · rw [if_neg hc] at h
    exact .inr ⟨hc, h⟩

lemma start_ok {b : UInt8} {s : Scan} {ts : List Token} (h : start b = some (s, ts)) :
    ScanOk s ∧ ∀ t ∈ ts, TokenOk t := by
  rw [start] at h
  -- white space, a structural character, a quotation mark
  iterate 8 (rcases ite_some h with ⟨-, ⟨⟩⟩ | ⟨-, h⟩; exact ⟨trivial, by simp [TokenOk]⟩)
  -- a number
  rcases ite_some h with ⟨h45, ⟨⟩⟩ | ⟨-, h⟩
  · rw [eq_of_beq h45]
    exact ⟨.neg, nofun⟩
  rcases ite_some h with ⟨h48, ⟨⟩⟩ | ⟨h48, h⟩
  · rw [eq_of_beq h48]
    exact ⟨.zero (m := []) (.inl rfl), nofun⟩
  rcases ite_some h with ⟨hd, ⟨⟩⟩ | ⟨-, h⟩
  · exact ⟨.digits (m := []) (.inl rfl) (intPart_one hd h48)
      fun h => h48 (by rw [List.singleton_inj.1 h]; rfl), nofun⟩
  -- a literal
  rcases ite_some h with ⟨-, ⟨⟩⟩ | ⟨-, h⟩
  · exact ⟨.bool true, nofun⟩
  rcases ite_some h with ⟨-, ⟨⟩⟩ | ⟨-, h⟩
  · exact ⟨.bool false, nofun⟩
  rcases ite_some h with ⟨-, ⟨⟩⟩ | ⟨-, ⟨⟩⟩
  exact ⟨.null, nofun⟩

/-- **One byte**: a step of the scanner keeps `ScanOk` and emits only `TokenOk` tokens. -/
lemma step_ok {s s' : Scan} {b : UInt8} {ts : List Token} (hs : ScanOk s)
    (h : step s b = some (s', ts)) : ScanOk s' ∧ ∀ t ∈ ts, TokenOk t := by
  cases s with
  | between => exact start_ok h
  | number st lit =>
    simp only [step] at h
    cases hn : st.next b with
    | some st' =>
      rw [hn] at h
      cases h
      refine ⟨?_, nofun⟩
      show NumPrefix st' (b :: lit).reverse
      rw [List.reverse_cons]
      exact NumPrefix.next hs hn
    | none =>
      rw [hn] at h
      by_cases hc : st.complete = true
      · rw [if_pos hc] at h
        obtain ⟨⟨s₁, ts₁⟩, hp, he⟩ := Option.map_eq_some'.1 h
        cases he
        obtain ⟨hs₁, hts₁⟩ := start_ok hp
        exact ⟨hs₁, List.forall_mem_cons.2 ⟨numberToken_ok hs hc, hts₁⟩⟩
      · rw [if_neg hc] at h
        cases h
  | string raw =>
    simp only [step] at h
    rcases ite_some h with ⟨-, ⟨⟩⟩ | ⟨-, h⟩
    · exact ⟨trivial, List.forall_mem_singleton.2 (.string _)⟩
    rcases ite_some h with ⟨-, ⟨⟩⟩ | ⟨-, h⟩
    · exact ⟨trivial, nofun⟩
    split at h
    · cases h
    · cases h
      exact ⟨trivial, nofun⟩
  | escape raw =>
    simp only [step] at h
    rcases ite_some h with ⟨-, ⟨⟩⟩ | ⟨-, h⟩
    · exact ⟨trivial, nofun⟩
    rcases ite_some h with ⟨-, ⟨⟩⟩ | ⟨-, ⟨⟩⟩
    exact ⟨trivial, nofun⟩
  | hex raw k =>
    cases k with
    | zero => cases h
    | succ k =>
      simp only [step] at h
      rcases ite_some h with ⟨-, h⟩ | ⟨-, ⟨⟩⟩
      cases h
      exact ⟨by split <;> trivial, nofun⟩
  | word cs v =>
    cases cs with
    | nil => cases h
    | cons c cs =>
      simp only [step] at h
      rcases ite_some h with ⟨-, h⟩ | ⟨-, ⟨⟩⟩
      split at h <;> cases h
      · exact ⟨trivial, List.forall_mem_singleton.2 hs⟩
      · exact ⟨hs, nofun⟩

lemma finish_ok {s : Scan} {ts : List Token} (hs : ScanOk s) (h : finish s = some ts) :
    ∀ t ∈ ts, TokenOk t := by
  cases s with
  | between =>
    cases h
    exact nofun
  | number st lit =>
    simp only [finish] at h
    by_cases hc : st.complete = true
    · rw [if_pos hc] at h
      cases h
      exact List.forall_mem_singleton.2 (numberToken_ok hs hc)
    · rw [if_neg hc] at h
      cases h
  | _ => cases h

lemma scanByte_ok {p q : Scan × List Token} {b : UInt8} (hs : ScanOk p.1)
    (hts : ∀ t ∈ p.2, TokenOk t) (h : scanByte p b = some q) :
    ScanOk q.1 ∧ ∀ t ∈ q.2, TokenOk t := by
  obtain ⟨⟨s', new⟩, hstep, h⟩ := Option.bind_eq_some.1 h
  cases h
  obtain ⟨hs', hnew⟩ := step_ok hs hstep
  exact ⟨hs', List.forall_mem_append.2 ⟨hts, hnew⟩⟩

/-- **Every run of the scanner** keeps `ScanOk` and emits only `TokenOk` tokens. -/
lemma foldlM_scanByte_ok (raw : List UInt8) : ∀ {p q : Scan × List Token}, ScanOk p.1 →
    (∀ t ∈ p.2, TokenOk t) → raw.foldlM scanByte p = some q → ScanOk q.1 ∧ ∀ t ∈ q.2, TokenOk t := by
  induction raw with
  | nil =>
    intro p q hs hts h
    cases h
    exact ⟨hs, hts⟩
  | cons b raw ih =>
    intro p q hs hts h
    rw [List.foldlM_cons] at h
    obtain ⟨p', hp', h⟩ := Option.bind_eq_some.1 h
    obtain ⟨hs', hts'⟩ := scanByte_ok hs hts hp'
    exact ih hs' hts' h

lemma tokens_ok {raw : List UInt8} {toks : List Token} (h : tokens raw = some toks) :
    ∀ t ∈ toks, TokenOk t := by
  rw [tokens_eq, tokensFrom] at h
  obtain ⟨⟨s, ts⟩, hq, h⟩ := Option.bind_eq_some.1 h
  obtain ⟨fin, hfin, h⟩ := Option.bind_eq_some.1 h
  cases h
  obtain ⟨hs, hts⟩ := foldlM_scanByte_ok raw (p := (.between, [])) trivial nofun hq
  exact List.forall_mem_append.2 ⟨hts, finish_ok hs hfin⟩

/-! ### The parser -/

def OpenOk : Open → Prop
  | .array xs => ∀ x ∈ xs, NumbersValid x
  | .object fs _ => ∀ f ∈ fs, NumbersValid f.2

def ExpectOk : Expect → Prop
  | .done v => NumbersValid v
  | _ => True

def ParseOk (p : List Open × Expect) : Prop := (∀ o ∈ p.1, OpenOk o) ∧ ExpectOk p.2

lemma close_ok {v : Value} {st : List Open} (hv : NumbersValid v) (hst : ∀ o ∈ st, OpenOk o) :
    ParseOk (close v st) := by
  cases st with
  | nil => exact ⟨nofun, hv⟩
  | cons o st =>
    rw [List.forall_mem_cons] at hst
    cases o <;> exact ⟨List.forall_mem_cons.2 ⟨List.forall_mem_cons.2 ⟨hv, hst.1⟩, hst.2⟩, trivial⟩

lemma begin_ok {st : List Open} {t : Token} {p : List Open × Expect} (hst : ∀ o ∈ st, OpenOk o)
    (ht : TokenOk t) (h : begin st t = some p) : ParseOk p := by
  cases t with
  | scalar v =>
    cases h
    exact close_ok ht hst
  | beginArray | beginObject =>
    cases h
    exact ⟨List.forall_mem_cons.2 ⟨nofun, hst⟩, trivial⟩
  | _ => cases h

lemma close_array_ok {xs : List Value} {st : List Open} (hst : ∀ o ∈ .array xs :: st, OpenOk o) :
    ParseOk (close (.array xs.reverse) st) :=
  close_ok (.array fun x hx => (List.forall_mem_cons.1 hst).1 x (List.mem_reverse.1 hx))
    (List.forall_mem_cons.1 hst).2

lemma close_object_ok {fs : List (String × Value)} {k : String} {st : List Open}
    (hst : ∀ o ∈ .object fs k :: st, OpenOk o) : ParseOk (close (.object fs.reverse) st) :=
  close_ok (.object fun f hf => (List.forall_mem_cons.1 hst).1 f (List.mem_reverse.1 hf))
    (List.forall_mem_cons.1 hst).2

/-- **One token**: a step of the parser keeps `ParseOk`. -/
lemma shift_ok {st : List Open} {e : Expect} {p' : List Open × Expect} {t : Token}
    (hst : ∀ o ∈ st, OpenOk o) (ht : TokenOk t) (h : shift (st, e) t = some p') : ParseOk p' := by
  unfold shift at h
  split at h <;> (try obtain ⟨rfl, rfl⟩ := Prod.mk.inj ‹(st, e) = _›) <;> (try cases h)
  case h_1 | h_3 => exact begin_ok hst ht h
  case h_2 | h_10 => exact close_array_ok hst
  case h_4 | h_11 => exact close_object_ok hst
  case h_5 | h_6 =>
    obtain ⟨hfs, hst⟩ := List.forall_mem_cons.1 hst
    exact ⟨List.forall_mem_cons.2 ⟨hfs, hst⟩, trivial⟩
  case h_7 | h_8 | h_9 => exact ⟨hst, trivial⟩

/-- **Every run of the parser** keeps `ParseOk`. -/
lemma foldlM_shift_ok {toks : List Token} (hts : ∀ t ∈ toks, TokenOk t) :
    ∀ {p q : List Open × Expect}, ParseOk p → toks.foldlM shift p = some q → ParseOk q := by
  induction toks with
  | nil =>
    intro p q hp h
    cases h
    exact hp
  | cons t toks ih =>
    intro p q hp h
    rw [List.forall_mem_cons] at hts
    rw [List.foldlM_cons] at h
    obtain ⟨p', hp', h⟩ := Option.bind_eq_some.1 h
    exact ih hts.2 (shift_ok hp.1 hts.1 hp') h

/-- **Every number the decoder reads is a JSON number.** -/
lemma parse_valid {raw : List UInt8} {v : Value} (h : parse raw = some v) : NumbersValid v := by
  obtain ⟨toks, htoks, h⟩ := Option.bind_eq_some.1 h
  obtain ⟨q, hq, h⟩ := Option.bind_eq_some.1 h
  have hq' := foldlM_shift_ok (tokens_ok htoks) (p := ([], .value)) ⟨nofun, trivial⟩ hq
  split at h
  · cases h
    exact hq'.2
  · cases h

/-! ### Decoding, encoding and decoding again -/

/-- **What the decoder reads, the encoder writes back**: the value `json.Unmarshal` reads from
any frame is written by `json.Marshal` as a JSON text, which `json.Unmarshal` reads back as the
same value. -/
theorem decode_encode_decode {raw : List UInt8} {v : Value} (h : parse raw = some v) :
    Text (bytes (encode v)) ∧ parse (bytes (encode v)) = some v :=
  encode_text_parse (parse_valid h)

/-- A frame with white space, an exponent with a sign and an escaped `é`, which the encoder
writes unescaped. -/
theorem decode_encode_decode_escape :
    parse (bytes " [-0.50E+2, \"\\u00e9\"] ") = some (.array [.number "-0.50E+2", .string "é"]) ∧
      Text (bytes (encode (.array [.number "-0.50E+2", .string "é"]))) ∧
      parse (bytes (encode (.array [.number "-0.50E+2", .string "é"]))) =
        some (.array [.number "-0.50E+2", .string "é"]) :=
  ⟨rfl, @decode_encode_decode (bytes " [-0.50E+2, \"\\u00e9\"] ") _ rfl⟩

end SimplePush.JsonSound
