import SimplePush.JsonLex

/-!
On a frame that is UTF-8, what `json.Unmarshal` accepts is a JSON text.

`JsonAccept` showed that every JSON text decodes; this is the converse. The scanner reads a frame
as lexemes between white space (`JsonLex`). On a UTF-8 frame the bytes split into characters at
every ASCII byte, so the content of each string lexeme is UTF-8 too, and then it is a sequence of
JSON characters. The parser takes tokens only in the order of a JSON value (`TokValue`): `Parsed`
says, for each state, which tokens it has taken, one lemma per kind of shift. Last, the white
space before each lexeme goes to the structural character before it in the grammar. So among
frames that are UTF-8, `parse` finds a value exactly in the JSON texts, and the receive loop drops
a frame as malformed exactly when `isPingBody` lets it through and it is no JSON text.
-/

namespace SimplePush.JsonSyntax

open SimplePush.Json SimplePush.JsonText SimplePush.JsonAccept SimplePush.JsonRoundTrip
open SimplePush.JsonSound SimplePush.JsonLex SimplePush.Messages SimplePush.Sniffer

/-! ### UTF-8 -/

/-- Bytes that are the UTF-8 encoding of some characters. -/
def Utf8 (l : List UInt8) : Prop := ∃ cs : List Char, l = cs.flatMap String.utf8EncodeChar

lemma utf8EncodeChar_ascii_or_high (c : Char) :
    (c.toNat < 0x80 ∧ ∃ b, String.utf8EncodeChar c = [b] ∧ b.toNat = c.toNat) ∨
      (0x80 ≤ c.toNat ∧ String.utf8EncodeChar c ≠ [] ∧
        ∀ b ∈ String.utf8EncodeChar c, 0x80 ≤ b.toNat) := by
  have hm := utf8EncodeChar_toNat c
  by_cases hc : c.toNat ≤ 0x7f
  · rw [if_pos hc, List.map_eq_cons_iff] at hm
    obtain ⟨b, l, hl, hb, hl'⟩ := hm
    rw [List.map_eq_nil_iff] at hl'
    exact .inl ⟨by omega, b, by rw [hl, hl'], hb⟩
  · refine .inr ⟨by omega, fun h => ?_, fun b hb => ?_⟩
    · rw [h, List.map_nil, if_neg hc] at hm
      split_ifs at hm
    have hb' := List.mem_map_of_mem UInt8.toNat hb
    rw [hm, if_neg hc] at hb'
    clear hm
    split_ifs at hb' <;>
      simp only [List.mem_cons, List.mem_singleton, List.not_mem_nil, or_false] at hb' <;> omega

/-- **UTF-8 splits at ASCII bytes**: where the bytes of some characters are cut before an ASCII
byte, both parts are the bytes of characters. -/
lemma Utf8.split {x y : List UInt8} (h : Utf8 (x ++ y)) (hy : ∀ b ∈ y.head?, b.toNat < 0x80) :
    Utf8 x ∧ Utf8 y := by
  obtain ⟨cs, h⟩ := h
  induction cs generalizing x with
  | nil =>
    obtain ⟨rfl, rfl⟩ := List.append_eq_nil.1 h
    exact ⟨⟨[], rfl⟩, ⟨[], rfl⟩⟩
  | cons c cs ih =>
    rw [List.flatMap_cons] at h
    rcases List.append_eq_append_iff.1 h.symm with ⟨a, rfl, ha⟩ | ⟨c', hc, rfl⟩
    · obtain ⟨⟨cs₁, rfl⟩, hy'⟩ := ih ha.symm
      exact ⟨⟨c :: cs₁, by simp⟩, hy'⟩
    · rcases c' with _ | ⟨b, c'⟩
      · exact ⟨⟨[c], by simpa using hc.symm⟩, ⟨cs, by simp⟩⟩
      rcases x with _ | ⟨a, x⟩
      · exact ⟨⟨[], rfl⟩, ⟨c :: cs, by simp [hc]⟩⟩
      exfalso
      have hb := hy b rfl
      rcases utf8EncodeChar_ascii_or_high c with ⟨-, b', he, -⟩ | ⟨-, -, hhigh⟩
      · rw [he] at hc
        simpa using congrArg List.length hc
      · exact absurd (hhigh b (by simp [hc])) (by omega)

lemma Utf8.tail {b : UInt8} {l : List UInt8} (h : Utf8 (b :: l)) (hb : b.toNat < 0x80) : Utf8 l := by
  obtain ⟨_ | ⟨c, cs⟩, h⟩ := h
  · cases h
  rw [List.flatMap_cons] at h
  rcases utf8EncodeChar_ascii_or_high c with ⟨-, b', he, -⟩ | ⟨-, hne, hhigh⟩
  · rw [he] at h
    exact ⟨cs, (List.cons.inj h).2⟩
  · obtain ⟨b', bs, he⟩ := List.exists_cons_of_ne_nil hne
    rw [he, List.cons_append] at h
    obtain ⟨rfl, -⟩ := List.cons.inj h
    exact absurd (hhigh b (by simp [he])) (by omega)

lemma Utf8.drop_ascii {x y : List UInt8} (h : Utf8 (x ++ y)) (hx : ∀ b ∈ x, b.toNat < 0x80) :
    Utf8 y := by
  induction x with
  | nil => exact h
  | cons b x ih =>
    rw [List.forall_mem_cons] at hx
    exact ih (h.tail hx.1) hx.2

/-! ### Strings of a UTF-8 frame -/

lemma isHexDigit_lt {b : UInt8} (h : isHexDigit b = true) : b.toNat < 0x80 := by
  have h' : b.toNat ≤ 57 ∨ b.toNat ≤ 70 ∨ b.toNat ≤ 102 := by
    simp only [isHexDigit, isDigit, Bool.or_eq_true, Bool.and_eq_true, decide_eq_true_eq] at h
    rcases h with (⟨-, h⟩ | ⟨-, h⟩) | ⟨-, h⟩
    exacts [.inl h, .inr (.inl h), .inr (.inr h)]
  omega

lemma rawChars_drop_high {bs rest : List UInt8} (h : RawChars (bs ++ rest))
    (hb : ∀ b ∈ bs, 0x80 ≤ b.toNat) : RawChars rest := by
  induction bs with
  | nil => exact h
  | cons b bs ih =>
    rw [List.forall_mem_cons] at hb
    rw [List.cons_append] at h
    generalize hx : bs ++ rest = x at h
    cases h with
    | plain _ _ _ hr => exact ih (hx ▸ hr) hb.2
    | escaped => exact absurd hb.1 (by decide)
    | unicode => exact absurd hb.1 (by decide)

/-- **A string's content on a UTF-8 frame**: what the scanner takes between quotation marks is,
when it is UTF-8, a sequence of JSON characters; a character of several bytes is one unescaped
character, since none of its bytes is ASCII. -/
lemma chars_of_rawChars (n : Nat) :
    ∀ {cs : List UInt8}, cs.length < n → RawChars cs → Utf8 cs → Chars cs := by
  induction n with
  | zero => exact fun hn => absurd hn (Nat.not_lt_zero _)
  | succ n ih =>
  intro cs hn hr hu
  cases hr with
  | nil => exact .nil
  | @plain b rest h₁ h₂ h₃ hr =>
    obtain ⟨_ | ⟨c, chs⟩, hu⟩ := hu
    · cases hu
    rw [List.flatMap_cons] at hu
    have hlen : rest.length < n := by simpa using hn
    rcases utf8EncodeChar_ascii_or_high c with ⟨-, b', he, hb'⟩ | ⟨hc, hne, hhigh⟩
    · rw [he, List.singleton_append] at hu
      obtain ⟨hbb, rfl⟩ := List.cons.inj hu
      have h₂' : b.toNat ≠ 0x22 := fun h => h₂ (UInt8.toNat.inj h)
      have h₃' : b.toNat ≠ 0x5C := fun h => h₃ (UInt8.toNat.inj h)
      have hbc : b.toNat = c.toNat := by rw [hbb, hb']
      have hsc : StrChar (String.utf8EncodeChar c) :=
        .unescaped c (show 0x20 ≤ c.toNat ∧ c.toNat ≤ 0x21 ∨ 0x23 ≤ c.toNat ∧ c.toNat ≤ 0x5B ∨
          0x5D ≤ c.toNat by omega)
      rw [he, ← hbb] at hsc
      exact Chars.cons hsc (ih hlen hr ⟨chs, rfl⟩)
    · obtain ⟨b₀, bs, he⟩ := List.exists_cons_of_ne_nil hne
      rw [he, List.cons_append] at hu
      obtain ⟨rfl, rfl⟩ := List.cons.inj hu
      have hbs : ∀ x ∈ bs, 0x80 ≤ x.toNat := fun x hx => hhigh x (by simp [he, hx])
      have hsc : StrChar (String.utf8EncodeChar c) :=
        .unescaped c (show 0x20 ≤ c.toNat ∧ c.toNat ≤ 0x21 ∨ 0x23 ≤ c.toNat ∧ c.toNat ≤ 0x5B ∨
          0x5D ≤ c.toNat by omega)
      rw [he] at hsc
      have hlen' : (chs.flatMap String.utf8EncodeChar).length < n := by
        simp only [List.length_append] at hlen
        omega
      exact Chars.cons hsc (ih hlen' (rawChars_drop_high hr hbs) ⟨chs, rfl⟩)
  | @escaped e rest he hr =>
    have hasc : e.toNat < 0x80 :=
      (by decide : ∀ x ∈ ([0x22, 0x5C, 0x2F, 0x62, 0x66, 0x6E, 0x72, 0x74] : List UInt8),
        x.toNat < 0x80) e he
    have hrest := (hu.tail (by decide)).tail hasc
    have hlen : rest.length < n := by
      simp only [List.length_cons] at hn
      omega
    exact Chars.cons (StrChar.escaped he) (ih hlen hr hrest)
  | @unicode h rest hl hh hr =>
    have hrest := hu.drop_ascii (x := 0x5C :: 0x75 :: h) (List.forall_mem_cons.2 ⟨by decide,
      List.forall_mem_cons.2 ⟨by decide, fun x hx => isHexDigit_lt (hh x hx)⟩⟩)
    have hlen : rest.length < n := by
      simp only [List.length_append, List.length_cons] at hn
      omega
    exact Chars.cons (StrChar.unicode hl hh) (ih hlen hr hrest)

/-! ### Lexemes of a UTF-8 frame -/

section
variable {S : List UInt8 → Prop}

lemma ws_head?_ascii {w : List UInt8} (hw : Ws w) : ∀ b ∈ w.head?, b.toNat < 0x80 := by
  intro b hb
  rcases isSpace_iff.1 (hw b (List.mem_of_mem_head? hb)) with rfl | rfl | rfl | rfl <;> decide

lemma head?_append_ascii {x y : List UInt8} (hx : ∀ b ∈ x.head?, b.toNat < 0x80)
    (hy : ∀ b ∈ y.head?, b.toNat < 0x80) : ∀ b ∈ (x ++ y).head?, b.toNat < 0x80 := by
  cases x with
  | nil => exact hy
  | cons a x => exact hx

lemma lexeme_head?_ascii {t : Token} {l : List UInt8} (h : Lexeme S t l) :
    ∀ b ∈ l.head?, b.toNat < 0x80 := by
  cases h
  case number hn => exact fun b hb => ascii_of_number hn b (List.mem_of_mem_head? hb)
  all_goals
    rintro b ⟨⟩
    decide

lemma lexed_head?_ascii {raw : List UInt8} {ts : List Token} (h : Lexed S raw ts) :
    ∀ b ∈ raw.head?, b.toNat < 0x80 := by
  induction h with
  | nil => nofun
  | cons hw hl _ ih =>
    exact head?_append_ascii (head?_append_ascii (ws_head?_ascii hw) (lexeme_head?_ascii hl)) ih

end

lemma lexeme_chars {t : Token} {l : List UInt8} (h : Lexeme RawChars t l) (hu : Utf8 l) :
    Lexeme Chars t l := by
  cases h
  case string cs hr =>
    obtain ⟨hcs, -⟩ := (hu.tail (by decide)).split (y := [0x22]) (by decide)
    exact .string (chars_of_rawChars _ (Nat.lt_succ_self _) hr hcs)
  all_goals constructor <;> assumption

lemma lexed_chars {raw : List UInt8} {ts : List Token} (h : Lexed RawChars raw ts) (hu : Utf8 raw) :
    Lexed Chars raw ts := by
  induction h with
  | nil => exact .nil
  | cons hw hl hr ih =>
    obtain ⟨hwl, hrest⟩ := hu.split (lexed_head?_ascii hr)
    obtain ⟨-, hl'⟩ := hwl.split (lexeme_head?_ascii hl)
    exact .cons hw (lexeme_chars hl hl') (ih hrest)

/-! ### The tokens of a value -/

def commaSep : List (List Token) → List Token
  | [] => []
  | [v] => v
  | v :: vs => v ++ .comma :: commaSep vs

def tokMember (m : String × List Token) : List Token := .scalar (.string m.1) :: .colon :: m.2

/-- The tokens of a JSON value, in the order the parser takes them. -/
inductive TokValue : List Token → Prop
  | scalar (v : Value) : TokValue [.scalar v]
  | array {vs : List (List Token)} : (∀ t ∈ vs, TokValue t) →
      TokValue (.beginArray :: commaSep vs ++ [.endArray])
  | object {ms : List (String × List Token)} : (∀ m ∈ ms, TokValue m.2) →
      TokValue (.beginObject :: commaSep (ms.map tokMember) ++ [.endObject])

lemma commaSep_cons (v : List Token) {vs : List (List Token)} (h : vs ≠ []) :
    commaSep (v :: vs) = v ++ .comma :: commaSep vs := by
  cases vs
  · contradiction
  · rfl

lemma commaSep_snoc (v : List Token) :
    ∀ {vs : List (List Token)}, vs ≠ [] → commaSep (vs ++ [v]) = commaSep vs ++ .comma :: v
  | [u], _ => rfl
  | u :: u' :: vs, _ => by
    show u ++ .comma :: commaSep ((u' :: vs) ++ [v]) = _
    rw [commaSep_snoc v (List.cons_ne_nil _ _), commaSep_cons u (List.cons_ne_nil _ _)]
    simp

def Elems (es : List Token) : Prop :=
  ∃ vs, vs ≠ [] ∧ (∀ t ∈ vs, TokValue t) ∧ es = commaSep vs

def Membs (ms : List Token) : Prop :=
  ∃ fs, fs ≠ [] ∧ (∀ m ∈ fs, TokValue m.2) ∧ ms = commaSep (fs.map tokMember)

section
variable {v es ms : List Token}

lemma elems_one (hv : TokValue v) : Elems v := ⟨[v], by simp, by simpa using hv, rfl⟩

lemma Elems.snoc (he : Elems es) (hv : TokValue v) : Elems (es ++ .comma :: v) := by
  obtain ⟨vs, hne, hall, rfl⟩ := he
  exact ⟨vs ++ [v], by simp, List.forall_mem_append.2 ⟨hall, by simpa using hv⟩,
    (commaSep_snoc v hne).symm⟩

lemma Elems.array (he : Elems es) : TokValue (.beginArray :: es ++ [.endArray]) := by
  obtain ⟨vs, -, hall, rfl⟩ := he
  exact .array hall

lemma membs_one (k : String) (hv : TokValue v) : Membs (tokMember (k, v)) :=
  ⟨[(k, v)], by simp, by simpa using hv, rfl⟩

lemma Membs.snoc (hm : Membs ms) (k : String) (hv : TokValue v) :
    Membs (ms ++ .comma :: tokMember (k, v)) := by
  obtain ⟨fs, hne, hall, rfl⟩ := hm
  refine ⟨fs ++ [(k, v)], by simp, List.forall_mem_append.2 ⟨hall, by simpa using hv⟩, ?_⟩
  rw [List.map_append, List.map_singleton, commaSep_snoc _ (by simpa using hne)]

lemma Membs.object (hm : Membs ms) : TokValue (.beginObject :: ms ++ [.endObject]) := by
  obtain ⟨fs, -, hall, rfl⟩ := hm
  exact .object hall

end

lemma tokValue_emptyArray : TokValue [.beginArray, .endArray] := @TokValue.array [] nofun

lemma tokValue_emptyObject : TokValue [.beginObject, .endObject] := @TokValue.object [] nofun

/-! ### The parser -/

def ElemsOpen (q : List Token) : Prop :=
  q = [.beginArray] ∨ ∃ es, Elems es ∧ q = .beginArray :: es ++ [.comma]

def MembsOpen (q : List Token) : Prop :=
  q = [.beginObject] ∨ ∃ ms, Membs ms ∧ q = .beginObject :: ms ++ [.comma]

def Waiting : Open → List Token → Prop
  | .array _, q => ElemsOpen q
  | .object _ k, q => ∃ q₀, MembsOpen q₀ ∧ q = q₀ ++ [.scalar (.string k), .colon]

def Stack : List Open → List Token → Prop
  | [], p => p = []
  | o :: st, p => ∃ p₀ q, Stack st p₀ ∧ Waiting o q ∧ p = p₀ ++ q

def Filled : Open → List Token → Prop
  | .array _, q => ∃ es, Elems es ∧ q = .beginArray :: es
  | .object _ _, q => ∃ ms, Membs ms ∧ q = .beginObject :: ms

/-- **The parser's invariant**: the tokens taken so far, by what the parser expects next. -/
def Parsed : List Open × Expect → List Token → Prop
  | (st, .value), p => Stack st p
  | (st, .valueOrEnd), p =>
    ∃ xs st₀ p₀, st = .array xs :: st₀ ∧ Stack st₀ p₀ ∧ p = p₀ ++ [.beginArray]
  | (st, .keyOrEnd), p =>
    ∃ fs k st₀ p₀, st = .object fs k :: st₀ ∧ Stack st₀ p₀ ∧ p = p₀ ++ [.beginObject]
  | (st, .key), p => ∃ fs k st₀ p₀ ms, st = .object fs k :: st₀ ∧ Stack st₀ p₀ ∧ Membs ms ∧
      p = p₀ ++ .beginObject :: ms ++ [.comma]
  | (st, .colon), p => ∃ fs k st₀ p₀ q, st = .object fs k :: st₀ ∧ Stack st₀ p₀ ∧ MembsOpen q ∧
      p = p₀ ++ q ++ [.scalar (.string k)]
  | (st, .commaOrEnd), p => ∃ o st₀ p₀ q, st = o :: st₀ ∧ Stack st₀ p₀ ∧ Filled o q ∧ p = p₀ ++ q
  | (st, .done _), p => st = [] ∧ TokValue p

lemma close_parsed {st : List Open} {p v : List Token} (x : Value) (hs : Stack st p)
    (hv : TokValue v) : Parsed (close x st) (p ++ v) := by
  match st, hs with
  | [], hs =>
    obtain rfl : p = [] := hs
    exact ⟨rfl, hv⟩
  | .array xs :: st, ⟨p₀, q, hs, hq, hp⟩ =>
    refine ⟨_, st, p₀, _, rfl, hs, ?_, by rw [hp, List.append_assoc]⟩
    rcases hq with rfl | ⟨es, he, rfl⟩
    · exact ⟨v, elems_one hv, rfl⟩
    · exact ⟨es ++ .comma :: v, he.snoc hv, by simp⟩
  | .object fs k :: st, ⟨p₀, q, hs, ⟨q₀, hq₀, hq⟩, hp⟩ =>
    refine ⟨_, st, p₀, _, rfl, hs, ?_, by rw [hp, List.append_assoc]⟩
    rcases hq₀ with rfl | ⟨ms, hm, rfl⟩
    · exact ⟨tokMember (k, v), membs_one k hv, by simp [hq, tokMember]⟩
    · exact ⟨ms ++ .comma :: tokMember (k, v), hm.snoc k hv, by simp [hq, tokMember]⟩

lemma begin_parsed {st : List Open} {p : List Token} {t : Token} {r : List Open × Expect}
    (hs : Stack st p) (h : begin st t = some r) : Parsed r (p ++ [t]) := by
  cases t with
  | scalar x =>
    cases h
    exact close_parsed x hs (.scalar x)
  | beginArray =>
    cases h
    exact ⟨[], st, p, rfl, hs, rfl⟩
  | beginObject =>
    cases h
    exact ⟨[], "", st, p, rfl, hs, rfl⟩
  | _ => cases h

/-- **One token**: every shift of the parser keeps `Parsed`. -/
lemma shift_parsed {st : List Open} {e : Expect} {p : List Token} {t : Token}
    {r : List Open × Expect} (hp : Parsed (st, e) p) (h : shift (st, e) t = some r) :
    Parsed r (p ++ [t]) := by
  unfold shift at h
  split at h <;> (try obtain ⟨rfl, rfl⟩ := Prod.mk.inj ‹(st, e) = _›) <;> (try cases h)
  case h_1 => exact begin_parsed hp h
  case h_3 =>
    obtain ⟨xs, st₀, p₀, rfl, hs, rfl⟩ := hp
    exact begin_parsed (show Stack (.array xs :: st₀) _ from ⟨p₀, _, hs, .inl rfl, rfl⟩) h
  case h_2 =>
    obtain ⟨_, _, p₀, ⟨⟩, hs, rfl⟩ := hp
    rw [List.append_assoc]
    exact close_parsed _ hs tokValue_emptyArray
  case h_4 =>
    obtain ⟨_, _, _, p₀, ⟨⟩, hs, rfl⟩ := hp
    rw [List.append_assoc]
    exact close_parsed _ hs tokValue_emptyObject
  case h_5 =>
    obtain ⟨_, _, _, p₀, ⟨⟩, hs, rfl⟩ := hp
    exact ⟨_, _, _, p₀, _, rfl, hs, .inl rfl, rfl⟩
  case h_6 =>
    obtain ⟨_, _, _, p₀, ms, ⟨⟩, hs, hm, rfl⟩ := hp
    exact ⟨_, _, _, p₀, _, rfl, hs, .inr ⟨ms, hm, rfl⟩, by simp⟩
  case h_7 =>
    obtain ⟨fs, k, st₀, p₀, q, rfl, hs, hq, rfl⟩ := hp
    exact ⟨p₀, _, hs, ⟨q, hq, rfl⟩, by simp⟩
  case h_8 =>
    obtain ⟨_, _, p₀, _, ⟨⟩, hs, ⟨es, he, rfl⟩, rfl⟩ := hp
    exact ⟨p₀, _, hs, .inr ⟨es, he, rfl⟩, by simp⟩
  case h_9 =>
    obtain ⟨_, _, p₀, _, ⟨⟩, hs, ⟨ms, hm, rfl⟩, rfl⟩ := hp
    exact ⟨_, _, _, p₀, ms, rfl, hs, hm, by simp⟩
  case h_10 =>
    obtain ⟨_, _, p₀, _, ⟨⟩, hs, ⟨es, he, rfl⟩, rfl⟩ := hp
    rw [List.append_assoc]
    exact close_parsed _ hs he.array
  case h_11 =>
    obtain ⟨_, _, p₀, _, ⟨⟩, hs, ⟨ms, hm, rfl⟩, rfl⟩ := hp
    rw [List.append_assoc]
    exact close_parsed _ hs hm.object

/-- **Every run of the parser** keeps `Parsed`. -/
lemma foldlM_shift_parsed (toks : List Token) : ∀ {s r : List Open × Expect} {p : List Token},
    Parsed s p → toks.foldlM shift s = some r → Parsed r (p ++ toks) := by
  induction toks with
  | nil =>
    intro s r p hp h
    cases h
    simpa using hp
  | cons t toks ih =>
    intro ⟨st, e⟩ r p hp h
    rw [List.foldlM_cons] at h
    obtain ⟨s', hs', h⟩ := Option.bind_eq_some.1 h
    simpa using ih (shift_parsed hp hs') h

/-- The parser finds a value only in the tokens of a value. -/
lemma tokValue_of_parse {raw : List UInt8} {v : Value} (h : parse raw = some v) :
    ∃ toks, tokens raw = some toks ∧ TokValue toks := by
  obtain ⟨toks, htoks, h⟩ := Option.bind_eq_some.1 h
  obtain ⟨q, hq, h⟩ := Option.bind_eq_some.1 h
  have hq' := foldlM_shift_parsed toks (s := ([], .value)) (p := []) rfl hq
  split at h
  · exact ⟨toks, htoks, hq'.2⟩
  · cases h

/-! ### From tokens back to the grammar -/

def Padded (P : List UInt8 → Prop) (raw : List UInt8) : Prop := ∃ w x, raw = w ++ x ∧ Ws w ∧ P x

lemma value_of_lexeme {v : Value} {l : List UInt8} (h : Lexeme Chars (.scalar v) l) :
    JsonText.Value l := by
  cases h with
  | string hcs => exact .string (.mk hcs)
  | number hn => exact .number hn
  | trueLit => exact .trueLit
  | falseLit => exact .falseLit
  | nullLit => exact .nullLit

lemma member_of {k : String} {v : List Token}
    (hv : ∀ {raw}, Lexed Chars raw v → Padded JsonText.Value raw) {raw : List UInt8}
    (h : Lexed Chars raw (tokMember (k, v))) :
    ∃ w s n x, raw = w ++ (s ++ n ++ x) ∧ Ws w ∧ Str s ∧ Structural 0x3A n ∧ JsonText.Value x := by
  cases h with
  | cons hw hk hr =>
    cases hk with
    | string hcs =>
      cases hr with
      | cons hwc hc hr =>
        cases hc
        obtain ⟨w', x, rfl, hw', hx⟩ := hv hr
        exact ⟨_, _, _ ++ 0x3A :: w', x, by simp, hw, .mk hcs, .mk hwc hw', hx⟩

lemma elements_of {vs : List (List Token)}
    (ih : ∀ t ∈ vs, ∀ {raw}, Lexed Chars raw t → Padded JsonText.Value raw) (hne : vs ≠ [])
    {raw : List UInt8} (h : Lexed Chars raw (commaSep vs)) : Padded Elements raw := by
  induction vs generalizing raw with
  | nil => contradiction
  | cons v vs ihl =>
    rw [List.forall_mem_cons] at ih
    rcases eq_or_ne vs [] with rfl | hvs
    · obtain ⟨w, x, rfl, hw, hx⟩ := ih.1 h
      exact ⟨w, x, rfl, hw, .one hx⟩
    rw [commaSep_cons v hvs] at h
    obtain ⟨a, b, rfl, ha, hb⟩ := h.split
    cases hb with
    | cons hwc hc hr =>
      cases hc
      obtain ⟨w, x, rfl, hw, hx⟩ := ih.1 ha
      obtain ⟨w', y, rfl, hw', hy⟩ := ihl ih.2 hvs hr
      exact ⟨w, x ++ (_ ++ 0x2C :: w') ++ y, by simp, hw, .cons hx (.mk hwc hw') hy⟩

lemma members_of {ms : List (String × List Token)}
    (ih : ∀ m ∈ ms, ∀ {raw}, Lexed Chars raw m.2 → Padded JsonText.Value raw) (hne : ms ≠ [])
    {raw : List UInt8} (h : Lexed Chars raw (commaSep (ms.map tokMember))) : Padded Members raw := by
  induction ms generalizing raw with
  | nil => contradiction
  | cons m ms ihl =>
    rw [List.forall_mem_cons] at ih
    rcases eq_or_ne ms [] with rfl | hms
    · obtain ⟨w, s, n, x, rfl, hw, hs, hn, hx⟩ := member_of ih.1 h
      exact ⟨w, _, rfl, hw, .one hs hn hx⟩
    rw [List.map_cons, commaSep_cons _ (by simpa using hms)] at h
    obtain ⟨a, b, rfl, ha, hb⟩ := h.split
    cases hb with
    | cons hwc hc hr =>
      cases hc
      obtain ⟨w, s, n, x, rfl, hw, hs, hn, hx⟩ := member_of ih.1 ha
      obtain ⟨w', y, rfl, hw', hy⟩ := ihl ih.2 hms hr
      exact ⟨w, s ++ n ++ x ++ (_ ++ 0x2C :: w') ++ y, by simp, hw, .cons hs hn hx (.mk hwc hw') hy⟩

/-- **Lexemes in the order of a value are a JSON value**: the white space before each lexeme goes
to the structural character before it, and only white space is left in front. -/
lemma value_of_tokValue {toks : List Token} (h : TokValue toks) :
    ∀ {raw}, Lexed Chars raw toks → Padded JsonText.Value raw := by
  induction h with
  | scalar v =>
    intro raw hl
    obtain ⟨w, l, rfl, hw, hl⟩ := hl.single
    exact ⟨w, l, rfl, hw, value_of_lexeme hl⟩
  | @array vs _ ih =>
    intro raw hl
    obtain ⟨a, e, rfl, ha, he⟩ := hl.split
    obtain ⟨w₃, l₃, rfl, hw₃, hl₃⟩ := he.single
    cases hl₃
    cases ha with
    | cons hw₁ hl₁ hr =>
      cases hl₁
      rcases eq_or_ne vs [] with rfl | hne
      · obtain rfl := hr.eq_nil
        exact ⟨_, _, by simp, hw₁, .emptyArray (.mk (a := []) ws_nil ws_nil) (.mk (b := []) hw₃ ws_nil)⟩
      · obtain ⟨w₂, x, rfl, hw₂, hx⟩ := elements_of ih hne hr
        exact ⟨_, _, by simp, hw₁,
          .array (.mk (a := []) ws_nil hw₂) hx (.mk (b := []) hw₃ ws_nil)⟩
  | @object ms _ ih =>
    intro raw hl
    obtain ⟨a, e, rfl, ha, he⟩ := hl.split
    obtain ⟨w₃, l₃, rfl, hw₃, hl₃⟩ := he.single
    cases hl₃
    cases ha with
    | cons hw₁ hl₁ hr =>
      cases hl₁
      rcases eq_or_ne ms [] with rfl | hne
      · obtain rfl := hr.eq_nil
        exact ⟨_, _, by simp, hw₁, .emptyObject (.mk (a := []) ws_nil ws_nil) (.mk (b := []) hw₃ ws_nil)⟩
      · obtain ⟨w₂, x, rfl, hw₂, hx⟩ := members_of ih hne hr
        exact ⟨_, _, by simp, hw₁,
          .object (.mk (a := []) ws_nil hw₂) hx (.mk (b := []) hw₃ ws_nil)⟩

/-! ### Texts -/

/-- **What the decoder accepts on a UTF-8 frame is a JSON text.** -/
lemma text_of_parse {raw : List UInt8} {v : Value} (h : parse raw = some v) (hu : Utf8 raw) :
    Text raw := by
  obtain ⟨toks, ht, hv⟩ := tokValue_of_parse h
  obtain ⟨pre, w, rfl, hl, hw⟩ := tokens_lexed ht
  obtain ⟨hpre, -⟩ := hu.split (ws_head?_ascii hw)
  obtain ⟨a, x, rfl, ha, hx⟩ := value_of_tokValue hv (lexed_chars hl hpre)
  exact .mk ha hx hw

/-- **`json.Unmarshal` accepts exactly the JSON texts**: on a frame that is UTF-8 it finds a
value if and only if the frame is a JSON text. -/
theorem parse_iff_text (s : String) : (∃ v, parse (bytes s) = some v) ↔ Text (bytes s) :=
  ⟨fun ⟨_, h⟩ => text_of_parse h ⟨s.data, rfl⟩, parse_of_text⟩

lemma unmarshal_malformed_iff (raw : List UInt8) :
    RequestHeader.unmarshal raw = .error .malformed ↔ parse raw = none := by
  simp only [RequestHeader.unmarshal, unmarshalStruct]
  cases parse raw with
  | none => simp
  | some v =>
    simp only [reduceCtorEq, iff_false]
    cases v <;> dsimp only <;> (try split) <;> nofun

/-- **The receive loop drops a frame as malformed exactly when it is no JSON text**: a frame
that is UTF-8 stops `sniffer` as malformed if and only if `isPingBody` lets it through and it is
not a JSON text. -/
theorem route_malformed_iff (s : String) :
    route (.ok (bytes s)) = .malformed ↔
      isPingBody (bytes s) = (false, none) ∧ ¬Text (bytes s) := by
  have htext : parse (bytes s) = none ↔ ¬Text (bytes s) := by
    constructor
    · intro h ht
      obtain ⟨v, hv⟩ := parse_of_text ht
      rw [h] at hv
      cases hv
    · intro h
      cases hp : parse (bytes s) with
      | none => rfl
      | some v => exact absurd (text_of_parse hp ⟨s.data, rfl⟩) h
  rw [← htext, ← unmarshal_malformed_iff, route]
  by_cases hl : (bytes s).length = 0
  · rw [if_pos hl, List.length_eq_zero.1 hl]
    exact ⟨nofun, fun ⟨h, _⟩ => by simp [isPingBody] at h⟩
  rw [if_neg hl]
  generalize isPingBody (bytes s) = pb
  rcases pb with ⟨_ | _, _ | e⟩
  · dsimp only
    split <;> simp_all
  all_goals simp

/-- **A handler is handed only JSON texts and ping bodies**: a frame that is UTF-8 and that the
receive loop dispatches is one that `isPingBody` takes as a ping, or a JSON text. -/
theorem route_dispatch_text {s : String} {hd : RequestHeader} {raw : List UInt8}
    (h : route (.ok (bytes s)) = .dispatch hd raw) :
    raw = bytes s ∧ (isPingBody (bytes s) = (true, none) ∨ Text (bytes s)) := by
  rw [route, if_neg (fun hl => by rw [if_pos hl] at h; cases h)] at h
  generalize hp : isPingBody (bytes s) = pb at h
  rcases pb with ⟨_ | _, _ | e⟩ <;> dsimp only at h
  · split at h <;> cases h
    cases hparse : parse (bytes s) with
    | none => exact absurd ((unmarshal_malformed_iff _).2 hparse) (by simp [*])
    | some v => exact ⟨rfl, .inr (text_of_parse hparse ⟨s.data, rfl⟩)⟩
  · cases h
  · cases h
    exact ⟨rfl, .inl rfl⟩
  · cases h

theorem route_dispatch_text_hello :
    route (.ok (bytes "\x7b\"messageType\":\"hello\"\x7d")) =
        .dispatch ⟨"hello"⟩ (bytes "\x7b\"messageType\":\"hello\"\x7d") ∧
      bytes "\x7b\"messageType\":\"hello\"\x7d" = bytes "\x7b\"messageType\":\"hello\"\x7d" ∧
        (isPingBody (bytes "\x7b\"messageType\":\"hello\"\x7d") = (true, none) ∨
          Text (bytes "\x7b\"messageType\":\"hello\"\x7d")) :=
  have h : route (.ok (bytes "\x7b\"messageType\":\"hello\"\x7d")) =
      .dispatch ⟨"hello"⟩ (bytes "\x7b\"messageType\":\"hello\"\x7d") := rfl
  ⟨h, route_dispatch_text h⟩

end SimplePush.JsonSyntax
