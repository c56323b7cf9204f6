import SimplePush.JsonSound

/-!
The scanner of `json.Unmarshal` reads a frame only as lexemes between white space.

`Lexed S raw toks` splits `raw` into one lexeme per token, each after white space: a
structural character, a literal, a JSON number, or a string whose content satisfies `S`. The
scanner takes a string's content byte by byte (`RawChars`: no control byte, no bare quotation
mark or backslash, well-formed escapes); whether that content is UTF-8 is a property of the
frame, not of the scanner, and `JsonSyntax` brings it in. `Scanned` says how the bytes read so
far split at every step: the lexemes of the tokens emitted, white space, and the part of a
lexeme the state stands inside.
-/

namespace SimplePush.JsonLex

open SimplePush.Json SimplePush.JsonText SimplePush.JsonAccept SimplePush.JsonSound

/-! ### Lexemes -/

/-- The content of a string as the scanner takes it: bytes from 0x20 on other than the
quotation mark and the backslash, and escapes. -/
inductive RawChars : List UInt8 → Prop
  | nil : RawChars []
  | plain {b : UInt8} {cs : List UInt8} : 0x20 ≤ b.toNat → b ≠ 0x22 → b ≠ 0x5C → RawChars cs →
      RawChars (b :: cs)
  | escaped {e : UInt8} {cs : List UInt8} : e ∈ [0x22, 0x5C, 0x2F, 0x62, 0x66, 0x6E, 0x72, 0x74] →
      RawChars cs → RawChars (0x5C :: e :: cs)
  | unicode {h cs : List UInt8} : h.length = 4 → (∀ x ∈ h, isHexDigit x) → RawChars cs →
      RawChars (0x5C :: 0x75 :: h ++ cs)

lemma RawChars.append {a b : List UInt8} (ha : RawChars a) (hb : RawChars b) :
    RawChars (a ++ b) := by
  induction ha with
  | nil => exact hb
  | plain h₁ h₂ h₃ _ ih => exact .plain h₁ h₂ h₃ ih
  | escaped he _ ih => exact .escaped he ih
  | unicode hl hh _ ih =>
    rw [List.append_assoc]
    exact .unicode hl hh ih

/-- The bytes of one token, with `S` for what may stand between a string's quotation marks. -/
inductive Lexeme (S : List UInt8 → Prop) : Token → List UInt8 → Prop
  | beginObject : Lexeme S .beginObject [0x7B]
  | endObject : Lexeme S .endObject [0x7D]
  | beginArray : Lexeme S .beginArray [0x5B]
  | endArray : Lexeme S .endArray [0x5D]
  | colon : Lexeme S .colon [0x3A]
  | comma : Lexeme S .comma [0x2C]
  | string {cs : List UInt8} : S cs →
      Lexeme S (.scalar (.string (unquote cs))) (0x22 :: cs ++ [0x22])
  | number {n : List UInt8} : Number n →
      Lexeme S (.scalar (.number ⟨n.map fun b => Char.ofNat b.toNat⟩)) n
  | trueLit : Lexeme S (.scalar (.bool true)) [0x74, 0x72, 0x75, 0x65]
  | falseLit : Lexeme S (.scalar (.bool false)) [0x66, 0x61, 0x6C, 0x73, 0x65]
  | nullLit : Lexeme S (.scalar .null) [0x6E, 0x75, 0x6C, 0x6C]

/-- `raw` is the lexemes of `toks` in order, each after white space. -/
inductive Lexed (S : List UInt8 → Prop) : List UInt8 → List Token → Prop
  | nil : Lexed S [] []
  | cons {w l rest : List UInt8} {t : Token} {ts : List Token} : Ws w → Lexeme S t l →
      Lexed S rest ts → Lexed S (w ++ l ++ rest) (t :: ts)

section
variable {S : List UInt8 → Prop}

lemma Lexed.append {a b : List UInt8} {ts us : List Token} (ha : Lexed S a ts)
    (hb : Lexed S b us) : Lexed S (a ++ b) (ts ++ us) := by
  induction ha with
  | nil => exact hb
  | cons hw hl _ ih =>
    rw [List.append_assoc]
    exact .cons hw hl ih

lemma Lexed.snoc {a w l : List UInt8} {ts : List Token} {t : Token} (ha : Lexed S a ts) (hw : Ws w)
    (hl : Lexeme S t l) : Lexed S (a ++ w ++ l) (ts ++ [t]) := by
  simpa using ha.append (.cons hw hl .nil)

lemma Lexed.split {raw : List UInt8} {ts us : List Token} (h : Lexed S raw (ts ++ us)) :
    ∃ a b, raw = a ++ b ∧ Lexed S a ts ∧ Lexed S b us := by
  induction ts generalizing raw with
  | nil => exact ⟨[], raw, rfl, .nil, h⟩
  | cons t ts ih =>
    cases h with
    | cons hw hl hr =>
      obtain ⟨a, b, rfl, ha, hb⟩ := ih hr
      exact ⟨_ ++ _ ++ a, b, by simp, .cons hw hl ha, hb⟩

lemma Lexed.single {raw : List UInt8} {t : Token} (h : Lexed S raw [t]) :
    ∃ w l, raw = w ++ l ∧ Ws w ∧ Lexeme S t l := by
  cases h with
  | cons hw hl hr =>
    cases hr
    exact ⟨_, _, by simp, hw, hl⟩

lemma Lexed.eq_nil {raw : List UInt8} (h : Lexed S raw []) : raw = [] := by
  cases h
  rfl

end

/-! ### The scanner -/

/-- The part of a lexeme the scanner stands inside, by its state. -/
def Partial : Scan → List UInt8 → Prop
  | .between, cur => cur = []
  | .number st lit, cur => cur = lit.reverse ∧ NumPrefix st cur
  | .string raw, cur => cur = 0x22 :: raw.reverse ∧ RawChars raw.reverse
  | .escape raw, cur => cur = 0x22 :: raw.reverse ++ [0x5C] ∧ RawChars raw.reverse
  | .hex raw k, cur => cur = 0x22 :: raw.reverse ∧ ∃ cs h, raw.reverse = cs ++ 0x5C :: 0x75 :: h ∧
      RawChars cs ∧ h.length + k = 4 ∧ ∀ x ∈ h, isHexDigit x
  | .word cs v, cur => cs ≠ [] ∧ Lexeme RawChars (.scalar v) (cur ++ cs)

/-- The bytes read so far: the lexemes of the tokens emitted, white space, and the part of a
lexeme the scanner stands inside. -/
def Scanned (p : Scan × List Token) (read : List UInt8) : Prop :=
  ∃ pre w cur, read = pre ++ w ++ cur ∧ Lexed RawChars pre p.2 ∧ Ws w ∧ Partial p.1 cur

lemma isHexDigit_of_hexVal {b : UInt8} (h : (hexVal b).isSome = true) : isHexDigit b = true := by
  simp only [isHexDigit, isDigit, Bool.or_eq_true, Bool.and_eq_true, decide_eq_true_eq]
  unfold hexVal at h
  split_ifs at h with h₁ h₂ h₃
  · exact .inl (.inl h₁)
  · exact .inl (.inr h₂)
  · exact .inr h₃
  · cases h

lemma start_scanned {pre w : List UInt8} {ts new : List Token} {b : UInt8} {s : Scan}
    (hl : Lexed RawChars pre ts) (hw : Ws w) (h : start b = some (s, new)) :
    Scanned (s, ts ++ new) (pre ++ w ++ [b]) := by
  have inside {s : Scan} (hs : Partial s [b]) : Scanned (s, ts ++ []) (pre ++ w ++ [b]) :=
    ⟨pre, w, [b], rfl, by simpa using hl, hw, hs⟩
  have punct {t : Token} (ht : Lexeme RawChars t [b]) :
      Scanned (.between, ts ++ [t]) (pre ++ w ++ [b]) :=
    ⟨pre ++ w ++ [b], [], [], by simp, hl.snoc hw ht, ws_nil, rfl⟩
  rw [start] at h
  -- white space
  rcases ite_some h with ⟨hs, ⟨⟩⟩ | ⟨-, h⟩
  · exact ⟨pre, w ++ [b], [], by simp, by simpa using hl,
      ws_append.2 ⟨hw, List.forall_mem_singleton.2 hs⟩, rfl⟩
  -- a structural character
  iterate 6
    rcases ite_some h with ⟨hb, ⟨⟩⟩ | ⟨-, h⟩
    · obtain rfl := eq_of_beq hb
      exact punct (by constructor)
  -- a quotation mark, a number, a literal
  rcases ite_some h with ⟨hb, ⟨⟩⟩ | ⟨-, h⟩
  · obtain rfl := eq_of_beq hb
    exact inside ⟨rfl, .nil⟩
  rcases ite_some h with ⟨hb, ⟨⟩⟩ | ⟨-, h⟩
  · obtain rfl := eq_of_beq hb
    exact inside ⟨rfl, .neg⟩
  rcases ite_some h with ⟨h48, ⟨⟩⟩ | ⟨h48, h⟩
  · obtain rfl := eq_of_beq h48
    exact inside ⟨rfl, .zero (m := []) (.inl rfl)⟩
  rcases ite_some h with ⟨hd, ⟨⟩⟩ | ⟨-, h⟩
  · exact inside ⟨rfl, .digits (m := []) (.inl rfl) (intPart_one hd h48)
      fun h => h48 (by rw [List.singleton_inj.1 h]; rfl)⟩
  rcases ite_some h with ⟨hb, ⟨⟩⟩ | ⟨-, h⟩
  · obtain rfl := eq_of_beq hb
    exact inside ⟨nofun, .trueLit⟩
  rcases ite_some h with ⟨hb, ⟨⟩⟩ | ⟨-, h⟩
  · obtain rfl := eq_of_beq hb
    exact inside ⟨nofun, .falseLit⟩
  rcases ite_some h with ⟨hb, ⟨⟩⟩ | ⟨-, ⟨⟩⟩
  obtain rfl := eq_of_beq hb
  exact inside ⟨nofun, .nullLit⟩

/-- **One byte**: a step of the scanner keeps the bytes read split into lexemes, white space
and the part of a lexeme its new state stands inside. -/
lemma step_scanned {s s' : Scan} {b : UInt8} {ts new : List Token} {read : List UInt8}
    (hp : Scanned (s, ts) read) (h : step s b = some (s', new)) :
    Scanned (s', ts ++ new) (read ++ [b]) := by
  obtain ⟨pre, w, cur, rfl, hl, hw, hc⟩ := hp
  have extend {s' : Scan} (hs : Partial s' (cur ++ [b])) :
      Scanned (s', ts ++ []) (pre ++ w ++ cur ++ [b]) :=
    ⟨pre, w, cur ++ [b], by simp, by simpa using hl, hw, hs⟩
  have emit {t : Token} (ht : Lexeme RawChars t (cur ++ [b])) :
      Scanned (.between, ts ++ [t]) (pre ++ w ++ cur ++ [b]) :=
    ⟨pre ++ w ++ (cur ++ [b]), [], [], by simp, hl.snoc hw ht, ws_nil, rfl⟩
  cases s with
  | between =>
    obtain rfl : cur = [] := hc
    simpa using start_scanned hl hw h
  | number st lit =>
    obtain ⟨rfl, hn⟩ := hc
    simp only [step] at h
    cases hnext : st.next b with
    | some st' =>
      rw [hnext] at h
      cases h
      exact extend ⟨by simp, hn.next hnext⟩
    | none =>
      rw [hnext] at h
      by_cases hc : st.complete = true
      · rw [if_pos hc] at h
        obtain ⟨⟨s₁, new₁⟩, hs, he⟩ := Option.map_eq_some'.1 h
        cases he
        have hlex : Lexeme RawChars (numberToken lit) lit.reverse := .number (hn.number hc)
        simpa using start_scanned (hl.snoc hw hlex) ws_nil hs
      · rw [if_neg hc] at h
        cases h
  | string raw =>
    obtain ⟨rfl, hr⟩ := hc
    simp only [step] at h
    rcases ite_some h with ⟨hb, ⟨⟩⟩ | ⟨h34, h⟩
    · obtain rfl := eq_of_beq hb
      exact emit (.string hr)
    rcases ite_some h with ⟨hb, ⟨⟩⟩ | ⟨h92, h⟩
    · obtain rfl := eq_of_beq hb
      exact extend ⟨rfl, hr⟩
    by_cases hlt : b < 32
    · rw [if_pos hlt] at h
      cases h
    rw [if_neg hlt] at h
    cases h
    have h20 : ¬b.toNat < 32 := hlt
    have hplain : RawChars [b] :=
      .plain (by omega) (fun h => h34 (by rw [h]; rfl)) (fun h => h92 (by rw [h]; rfl)) .nil
    exact extend ⟨by simp, by simpa using hr.append hplain⟩
  | escape raw =>
    obtain ⟨rfl, hr⟩ := hc
    simp only [step] at h
    rcases ite_some h with ⟨hb, ⟨⟩⟩ | ⟨-, h⟩
    · obtain rfl := eq_of_beq hb
      exact extend ⟨by simp, raw.reverse, [], by simp, hr, rfl, nofun⟩
    rcases ite_some h with ⟨he, ⟨⟩⟩ | ⟨-, ⟨⟩⟩
    have hesc : RawChars [0x5C, b] := .escaped (List.elem_iff.1 he) .nil
    exact extend ⟨by simp, by simpa using hr.append hesc⟩
  | hex raw k =>
    obtain ⟨rfl, cs, hx, hrx, hcs, hk, hhex⟩ := hc
    cases k with
    | zero => cases h
    | succ k =>
      simp only [step] at h
      rcases ite_some h with ⟨hb, h⟩ | ⟨-, ⟨⟩⟩
      cases h
      have hhex' : ∀ x ∈ hx ++ [b], isHexDigit x = true :=
        List.forall_mem_append.2 ⟨hhex, List.forall_mem_singleton.2 (isHexDigit_of_hexVal hb)⟩
      have hrev : (b :: raw).reverse = cs ++ 0x5C :: 0x75 :: (hx ++ [b]) := by simp [hrx]
      by_cases hk0 : k = 0
      · rw [if_pos hk0]
        have hu : RawChars (0x5C :: 0x75 :: (hx ++ [b]) ++ []) :=
          .unicode (by simp; omega) hhex' .nil
        exact extend ⟨by simp, by rw [hrev]; simpa using hcs.append hu⟩
      · rw [if_neg hk0]
        exact extend ⟨by simp, cs, hx ++ [b], hrev, hcs, by simp; omega, hhex'⟩
  | word cs v =>
    obtain ⟨-, hlex⟩ := hc
    cases cs with
    | nil => cases h
    | cons c cs =>
      simp only [step] at h
      rcases ite_some h with ⟨hb, h⟩ | ⟨-, ⟨⟩⟩
      rw [← eq_of_beq hb] at hlex
      by_cases hcs : cs.isEmpty = true
      · rw [if_pos hcs] at h
        cases h
        rw [List.isEmpty_iff.1 hcs] at hlex
        exact emit hlex
      · rw [if_neg hcs] at h
        cases h
        exact extend ⟨by simpa using hcs, by simpa using hlex⟩

lemma finish_lexed {s : Scan} {ts fin : List Token} {read : List UInt8} (hp : Scanned (s, ts) read)
    (h : finish s = some fin) : ∃ pre w, read = pre ++ w ∧ Lexed RawChars pre (ts ++ fin) ∧ Ws w := by
  obtain ⟨pre, w, cur, rfl, hl, hw, hc⟩ := hp
  cases s with
  | between =>
    cases h
    obtain rfl : cur = [] := hc
    exact ⟨pre, w, by simp, by simpa using hl, hw⟩
  | number st lit =>
    obtain ⟨rfl, hn⟩ := hc
    simp only [finish] at h
    by_cases hcpl : st.complete = true
    · rw [if_pos hcpl] at h
      cases h
      exact ⟨pre ++ w ++ lit.reverse, [], by simp, hl.snoc hw (.number (hn.number hcpl)), ws_nil⟩
    · rw [if_neg hcpl] at h
      cases h
  | _ => cases h

/-- **Every run of the scanner** keeps the bytes read split as `Scanned` says. -/
lemma foldlM_scanned (raw : List UInt8) : ∀ {p q : Scan × List Token} {read : List UInt8},
    Scanned p read → raw.foldlM scanByte p = some q → Scanned q (read ++ raw) := by
  induction raw with
  | nil =>
    intro p q read hp h
    cases h
    simpa using hp
  | cons b raw ih =>
    intro ⟨s, ts⟩ q read hp h
    rw [List.foldlM_cons] at h
    obtain ⟨p', hp', h⟩ := Option.bind_eq_some.1 h
    obtain ⟨⟨s', new⟩, hstep, he⟩ := Option.bind_eq_some.1 hp'
    cases he
    simpa using ih (step_scanned hp hstep) h

/-- **The scanner reads only lexemes**: the tokens of a text are read off lexemes, each after
white space, and only white space follows the last. -/
theorem tokens_lexed {raw : List UInt8} {toks : List Token} (h : tokens raw = some toks) :
    ∃ pre w, raw = pre ++ w ∧ Lexed RawChars pre toks ∧ Ws w := by
  rw [tokens_eq, tokensFrom] at h
  obtain ⟨⟨s, ts⟩, hq, h⟩ := Option.bind_eq_some.1 h
  obtain ⟨fin, hfin, h⟩ := Option.bind_eq_some.1 h
  cases h
  exact finish_lexed (by simpa using foldlM_scanned raw (p := (.between, [])) ⟨[], [], [], rfl, .nil, ws_nil, rfl⟩ hq) hfin

end SimplePush.JsonLex
