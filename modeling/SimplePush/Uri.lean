import Mathlib.Data.List.Basic

/-!
The generic syntax of a URI on the characters of its text, with the zone of an IPv6 literal.

Each ABNF rule of the URI syntax is a predicate on character lists, one constructor per
alternative, and the IP literal takes the alternative `IPv6addrz = IPv6address "%25" ZoneID` of
RFC 6874. `URI u r` says that `u` derives from the rule `URI` with the parts `r`: the scheme,
the authority if there is one (its userinfo, host and port), the path, the query and the
fragment. The host of an IP literal is its address, followed after a zone by `%` and the zone
percent-decoded; a decoded octet is taken as the character of that code, which is exact below
0x80. Nothing of the server is modelled here: the grammar says how a client reads the URLs that
`CanonicalURL` writes.
-/

namespace SimplePush.Uri

/-! ### Characters -/

def isHexDig (c : Char) : Bool := c.isDigit || ('a' ≤ c && c ≤ 'f') || ('A' ≤ c && c ≤ 'F')

def isUnreserved (c : Char) : Bool :=
  c.isAlpha || c.isDigit || c == '-' || c == '.' || c == '_' || c == '~'

def isSubDelim (c : Char) : Bool :=
  c ∈ ['!', '$', '&', Char.ofNat 39, '(', ')', '*', '+', ',', ';', '=']

def isPChar (c : Char) : Bool := isUnreserved c || isSubDelim c || c == ':' || c == '@'

/-- The characters of the rule `ok` and `pct-encoded = "%" HEXDIG HEXDIG`, any number of times. -/
inductive PctString (ok : Char → Bool) : List Char → Prop
  | nil : PctString ok []
  | char {c : Char} {cs : List Char} : ok c → PctString ok cs → PctString ok (c :: cs)
  | pct {a b : Char} {cs : List Char} : isHexDig a → isHexDig b → PctString ok cs →
      PctString ok ('%' :: a :: b :: cs)

def hexVal (c : Char) : Nat :=
  if c.isDigit then c.toNat - 48 else if c ≤ 'F' then c.toNat - 55 else c.toNat - 87

/-- Percent-decoding: each `"%" HEXDIG HEXDIG` becomes the character of that code. -/
def pctDecode : List Char → List Char
  | '%' :: a :: b :: cs =>
    if isHexDig a ∧ isHexDig b then Char.ofNat (16 * hexVal a + hexVal b) :: pctDecode cs
    else '%' :: pctDecode (a :: b :: cs)
  | c :: cs => c :: pctDecode cs
  | [] => []

lemma pctDecode_cons {c : Char} {cs : List Char} (h : c ≠ '%') :
    pctDecode (c :: cs) = c :: pctDecode cs :=
  pctDecode.eq_2 c cs fun _ _ _ hc _ => h hc

/-! ### Scheme, paths, query and fragment -/

def Scheme (s : List Char) : Prop :=
  ∃ c cs, s = c :: cs ∧ c.isAlpha ∧
    ∀ x ∈ cs, x.isAlpha || x.isDigit || x == '+' || x == '-' || x == '.'

def Segment : List Char → Prop := PctString isPChar

inductive PathAbempty : List Char → Prop
  | nil : PathAbempty []
  | seg {s rest : List Char} : Segment s → PathAbempty rest → PathAbempty ('/' :: (s ++ rest))

inductive PathAbsolute : List Char → Prop
  | root : PathAbsolute ['/']
  | seg {s rest : List Char} : Segment s → s ≠ [] → PathAbempty rest →
      PathAbsolute ('/' :: (s ++ rest))

inductive PathRootless : List Char → Prop
  | mk {s rest : List Char} : Segment s → s ≠ [] → PathAbempty rest → PathRootless (s ++ rest)

def Query : List Char → Prop := PctString fun c => isPChar c || c == '/' || c == '?'

/-! ### Hosts -/

inductive DecOctet : List Char → Prop
  | one {a : Char} : a.isDigit → DecOctet [a]
  | two {a b : Char} : a.isDigit → a ≠ '0' → b.isDigit → DecOctet [a, b]
  | hundred {b c : Char} : b.isDigit → c.isDigit → DecOctet ['1', b, c]
  | twoHundred {b c : Char} : b ∈ ['0', '1', '2', '3', '4'] → c.isDigit → DecOctet ['2', b, c]
  | twoFifty {c : Char} : c ∈ ['0', '1', '2', '3', '4', '5'] → DecOctet ['2', '5', c]

inductive IPv4address : List Char → Prop
  | mk {a b c d : List Char} : DecOctet a → DecOctet b → DecOctet c → DecOctet d →
      IPv4address (a ++ '.' :: (b ++ '.' :: (c ++ '.' :: d)))

def H16 (cs : List Char) : Prop := cs ≠ [] ∧ cs.length ≤ 4 ∧ ∀ c ∈ cs, isHexDig c

inductive Ls32 : List Char → Prop
  | pair {a b : List Char} : H16 a → H16 b → Ls32 (a ++ ':' :: b)
  | v4 {a : List Char} : IPv4address a → Ls32 a

inductive H16Colons : Nat → List Char → Prop
  | zero : H16Colons 0 []
  | succ {n : Nat} {a b : List Char} : H16 a → H16Colons n b → H16Colons (n + 1) (a ++ ':' :: b)

inductive Before (k : Nat) : List Char → Prop
  | none : Before k []
  | some {n : Nat} {a b : List Char} : n ≤ k → H16Colons n a → H16 b → Before k (a ++ b)

/-- `IPv6address`, one constructor per alternative. -/
inductive IPv6address : List Char → Prop
  /-- `6( h16 ":" ) ls32` -/
  | full {a b : List Char} : H16Colons 6 a → Ls32 b → IPv6address (a ++ b)
  /-- `"::" 5( h16 ":" ) ls32` -/
  | five {a b : List Char} : H16Colons 5 a → Ls32 b → IPv6address (':' :: ':' :: (a ++ b))
  /-- `[ h16 ] "::" 4( h16 ":" ) ls32` -/
  | four {p a b : List Char} : Before 0 p → H16Colons 4 a → Ls32 b →
      IPv6address (p ++ ':' :: ':' :: (a ++ b))
  /-- `[ *1( h16 ":" ) h16 ] "::" 3( h16 ":" ) ls32` -/
  | three {p a b : List Char} : Before 1 p → H16Colons 3 a → Ls32 b →
      IPv6address (p ++ ':' :: ':' :: (a ++ b))
  /-- `[ *2( h16 ":" ) h16 ] "::" 2( h16 ":" ) ls32` -/
  | two {p a b : List Char} : Before 2 p → H16Colons 2 a → Ls32 b →
      IPv6address (p ++ ':' :: ':' :: (a ++ b))
  /-- `[ *3( h16 ":" ) h16 ] "::" h16 ":" ls32` -/
  | one {p a b : List Char} : Before 3 p → H16 a → Ls32 b →
      IPv6address (p ++ ':' :: ':' :: (a ++ ':' :: b))
  /-- `[ *4( h16 ":" ) h16 ] "::" ls32` -/
  | ls32 {p b : List Char} : Before 4 p → Ls32 b → IPv6address (p ++ ':' :: ':' :: b)
  /-- `[ *5( h16 ":" ) h16 ] "::" h16` -/
  | h16 {p a : List Char} : Before 5 p → H16 a → IPv6address (p ++ ':' :: ':' :: a)
  /-- `[ *6( h16 ":" ) h16 ] "::"` -/
  | compressed {p : List Char} : Before 6 p → IPv6address (p ++ [':', ':'])

inductive IPvFuture : List Char → Prop
  | mk {v : Char} {hs cs : List Char} : v = 'v' ∨ v = 'V' → hs ≠ [] → (∀ c ∈ hs, isHexDig c) →
      cs ≠ [] → (∀ c ∈ cs, isUnreserved c || isSubDelim c || c == ':') →
      IPvFuture (v :: (hs ++ '.' :: cs))

/-- `IP-literal = "[" ( IPv6address / IPv6addrz / IPvFuture ) "]"`, what stands between the
brackets, with the host it names. -/
inductive IPLiteral : List Char → List Char → Prop
  | v6 {a : List Char} : IPv6address a → IPLiteral a a
  /-- `IPv6addrz = IPv6address "%25" ZoneID`, `ZoneID = 1*( unreserved / pct-encoded )` -/
  | v6z {a z : List Char} : IPv6address a → PctString isUnreserved z → z ≠ [] →
      IPLiteral (a ++ '%' :: '2' :: '5' :: z) (a ++ '%' :: pctDecode z)
  | future {a : List Char} : IPvFuture a → IPLiteral a a

/-- `host = IP-literal / IPv4address / reg-name`, with
`reg-name = *( unreserved / pct-encoded / sub-delims )`, and the host it names. -/
inductive Host : List Char → List Char → Prop
  | literal {a v : List Char} : IPLiteral a v → Host ('[' :: (a ++ [']'])) v
  | v4 {a : List Char} : IPv4address a → Host a a
  | regName {a : List Char} : PctString (fun c => isUnreserved c || isSubDelim c) a → Host a a

/-! ### Authority and URI -/

def WithUserinfo : Option (List Char) → List Char → Prop
  | none, t => t = []
  | some u, t => PctString (fun c => isUnreserved c || isSubDelim c || c == ':') u ∧ t = u ++ ['@']

def WithPort : Option (List Char) → List Char → Prop
  | none, t => t = []
  | some p, t => (∀ c ∈ p, c.isDigit) ∧ t = ':' :: p

/-- `authority = [ userinfo "@" ] host [ ":" port ]`, with its userinfo, host and port. -/
inductive Authority : List Char → Option (List Char) → List Char → Option (List Char) → Prop
  | mk {ut ht pt v : List Char} {ui p : Option (List Char)} : WithUserinfo ui ut → Host ht v →
      WithPort p pt → Authority (ut ++ (ht ++ pt)) ui v p

/-- The parts a URI derives with: the scheme, the userinfo, host and port of the authority if
there is one, the path, the query and the fragment. -/
structure Parts where
  scheme : List Char
  authority : Option (Option (List Char) × List Char × Option (List Char))
  path : List Char
  query : Option (List Char)
  fragment : Option (List Char)

/-- `hier-part = "//" authority path-abempty / path-absolute / path-rootless / path-empty`, with
the authority's parts and the path. -/
inductive HierPart :
    List Char → Option (Option (List Char) × List Char × Option (List Char)) → List Char → Prop
  | authority {a q v : List Char} {ui p : Option (List Char)} : Authority a ui v p →
      PathAbempty q → HierPart ('/' :: '/' :: (a ++ q)) (some (ui, v, p)) q
  | absolute {q : List Char} : PathAbsolute q → HierPart q none q
  | rootless {q : List Char} : PathRootless q → HierPart q none q
  | empty : HierPart [] none []

def WithQuery (mark : Char) : Option (List Char) → List Char → Prop
  | none, t => t = []
  | some q, t => Query q ∧ t = mark :: q

/-- `URI = scheme ":" hier-part [ "?" query ] [ "#" fragment ]`, with its parts. -/
inductive URI : List Char → Parts → Prop
  | mk {s t path qt ft : List Char} {auth : Option (Option (List Char) × List Char × Option (List Char))}
      {q f : Option (List Char)} : Scheme s → HierPart t auth path → WithQuery '?' q qt →
      WithQuery '#' f ft → URI (s ++ ':' :: (t ++ (qt ++ ft))) ⟨s, auth, path, q, f⟩

/-! ### The characters a derivation is made of -/

lemma PctString.mem {ok : Char → Bool} {cs : List Char} (h : PctString ok cs) :
    ∀ c ∈ cs, ok c ∨ c = '%' ∨ isHexDig c := by
  induction h with
  | nil => nofun
  | char hc _ ih => rintro c (_ | ⟨_, hm⟩); exacts [.inl hc, ih c hm]
  | pct ha hb _ ih =>
    rintro c (_ | ⟨_, _ | ⟨_, _ | ⟨_, hm⟩⟩⟩)
    exacts [.inr (.inl rfl), .inr (.inr ha), .inr (.inr hb), ih c hm]

lemma H16Colons.mem {n : Nat} {cs : List Char} (h : H16Colons n cs) :
    ∀ c ∈ cs, isHexDig c ∨ c = ':' := by
  induction h with
  | zero => nofun
  | succ ha _ ih =>
    intro c hc
    rcases List.mem_append.1 hc with hc | _ | ⟨_, hc⟩
    exacts [.inl (ha.2.2 c hc), .inr rfl, ih c hc]

lemma Before.mem {k : Nat} {cs : List Char} (h : Before k cs) : ∀ c ∈ cs, isHexDig c ∨ c = ':' := by
  rcases h with _ | ⟨-, ha, hb⟩
  · nofun
  · intro c hc
    rcases List.mem_append.1 hc with hc | hc
    exacts [ha.mem c hc, .inl (hb.2.2 c hc)]

lemma isHexDig_of_isDigit {c : Char} (h : c.isDigit) : isHexDig c := by simp [isHexDig, h]

lemma isDigit_of_mem {c : Char} {l : List Char} (hl : ∀ x ∈ l, x.isDigit) (h : c ∈ l) :
    c.isDigit := hl c h

lemma DecOctet.mem {cs : List Char} (h : DecOctet cs) : ∀ c ∈ cs, c.isDigit := by
  cases h <;> simp only [List.forall_mem_cons]
  case one ha => exact ⟨ha, nofun⟩
  case two ha _ hb => exact ⟨ha, hb, nofun⟩
  case hundred hb hc => exact ⟨by decide, hb, hc, nofun⟩
  case twoHundred hb hc => exact ⟨by decide, isDigit_of_mem (by decide) hb, hc, nofun⟩
  case twoFifty hc => exact ⟨by decide, by decide, isDigit_of_mem (by decide) hc, nofun⟩

lemma IPv4address.mem {cs : List Char} (h : IPv4address cs) : ∀ c ∈ cs, c.isDigit ∨ c = '.' := by
  obtain ⟨ha, hb, hc, hd⟩ := h
  have hdig : ∀ {o}, DecOctet o → ∀ c ∈ o, c.isDigit ∨ c = '.' := fun ho c h => .inl (ho.mem c h)
  simp only [List.forall_mem_append, List.forall_mem_cons]
  exact ⟨hdig ha, .inr trivial, hdig hb, .inr trivial, hdig hc, .inr trivial, hdig hd⟩

def V6Char (c : Char) : Prop := isHexDig c ∨ c = ':' ∨ c = '.'

instance (c : Char) : Decidable (V6Char c) := inferInstanceAs (Decidable (_ ∨ _))

lemma Ls32.mem {cs : List Char} (h : Ls32 cs) : ∀ c ∈ cs, V6Char c := by
  cases h with
  | pair ha hb =>
    intro c hc
    rcases List.mem_append.1 hc with hc | _ | ⟨_, hc⟩
    exacts [.inl (ha.2.2 c hc), .inr (.inl rfl), .inl (hb.2.2 c hc)]
  | v4 ha =>
    intro c hc
    rcases ha.mem c hc with hc | hc
    exacts [.inl (isHexDig_of_isDigit hc), .inr (.inr hc)]

lemma v6Char_of {c : Char} (h : isHexDig c ∨ c = ':') : V6Char c := h.elim .inl (.inr ∘ .inl)

lemma IPv6address.mem {cs : List Char} (h : IPv6address cs) : ∀ c ∈ cs, V6Char c := by
  have hc : V6Char ':' := .inr (.inl rfl)
  have hp : ∀ {k p}, Before k p → ∀ c ∈ p, V6Char c := fun hp c h => v6Char_of (hp.mem c h)
  have hn : ∀ {n a}, H16Colons n a → ∀ c ∈ a, V6Char c := fun ha c h => v6Char_of (ha.mem c h)
  have h1 : ∀ {a}, H16 a → ∀ c ∈ a, V6Char c := fun ha c h => .inl (ha.2.2 c h)
  cases h <;> simp only [List.forall_mem_append, List.forall_mem_cons]
  case full ha hb => exact ⟨hn ha, hb.mem⟩
  case five ha hb => exact ⟨hc, hc, hn ha, hb.mem⟩
  case four p ha hb | three p ha hb | two p ha hb => exact ⟨hp p, hc, hc, hn ha, hb.mem⟩
  case one p ha hb => exact ⟨hp p, hc, hc, h1 ha, hc, hb.mem⟩
  case ls32 p hb => exact ⟨hp p, hc, hc, hb.mem⟩
  case h16 p ha => exact ⟨hp p, hc, hc, h1 ha⟩
  case compressed p => exact ⟨hp p, hc, hc, nofun⟩

lemma IPv6address.colon_mem {cs : List Char} (h : IPv6address cs) : ':' ∈ cs := by
  cases h with
  | full ha => cases ha; simp
  | _ => simp

def LitChar (c : Char) : Prop := isHexDig c ∨ isUnreserved c ∨ isSubDelim c ∨ c = ':' ∨ c = '%'

instance (c : Char) : Decidable (LitChar c) := inferInstanceAs (Decidable (_ ∨ _))

lemma litChar_of_v6Char {c : Char} (h : V6Char c) : LitChar c := by
  rcases h with h | rfl | rfl
  exacts [.inl h, by decide, by decide]

lemma IPLiteral.mem {a v : List Char} (h : IPLiteral a v) : ∀ c ∈ a, LitChar c := by
  cases h with
  | v6 ha => exact fun c hc => litChar_of_v6Char (ha.mem c hc)
  | v6z ha hz =>
    intro c hc
    simp only [List.mem_append, List.mem_cons] at hc
    rcases hc with hc | rfl | rfl | rfl | hc
    · exact litChar_of_v6Char (ha.mem c hc)
    all_goals first | decide | skip
    rcases hz.mem c hc with h | rfl | h
    exacts [.inr (.inl h), by decide, .inl h]
  | future hf =>
    obtain ⟨hv, -, hh, -, hcs⟩ := hf
    intro c hc
    simp only [List.mem_cons, List.mem_append] at hc
    rcases hc with rfl | hc | rfl | hc
    · rcases hv with rfl | rfl <;> decide
    · exact .inl (hh c hc)
    · decide
    · have := hcs c hc
      simp only [Bool.or_eq_true, beq_iff_eq] at this
      rcases this with (h | h) | h
      exacts [.inr (.inl h), .inr (.inr (.inl h)), .inr (.inr (.inr (.inl h)))]

def RegChar (c : Char) : Prop := isHexDig c ∨ isUnreserved c ∨ isSubDelim c ∨ c = '%'

instance (c : Char) : Decidable (RegChar c) := inferInstanceAs (Decidable (_ ∨ _))

lemma IPv4address.regChar {a : List Char} (h : IPv4address a) : ∀ c ∈ a, RegChar c := by
  intro c hc
  rcases h.mem c hc with h | rfl
  exacts [.inl (isHexDig_of_isDigit h), by decide]

lemma PctString.regChar {a : List Char} (h : PctString (fun c => isUnreserved c || isSubDelim c) a) :
    ∀ c ∈ a, RegChar c := by
  intro c hc
  rcases h.mem c hc with h | rfl | h
  · simp only [Bool.or_eq_true] at h
    exact h.elim (.inr ∘ .inl) (.inr ∘ .inr ∘ .inl)
  · decide
  · exact .inl h

/-! ### Splitting at a delimiter -/

/-- Two ways of writing a list as a part free of the delimiters `S` and a rest that is empty or
begins with one are the same. -/
lemma split_unique {α : Type} {S : α → Prop} :
    ∀ {a b a' b' : List α}, (∀ c ∈ a, ¬S c) → (∀ c ∈ a', ¬S c) → (∀ c ∈ b.head?, S c) →
      (∀ c ∈ b'.head?, S c) → a ++ b = a' ++ b' → a = a' ∧ b = b'
  | [], _, [], _, _, _, _, _, h => ⟨rfl, h⟩
  | [], _, c :: _, _, _, ha', hb, _, h => by
    subst h; exact absurd (hb c rfl) (ha' c (List.mem_cons_self _ _))
  | c :: _, _, [], _, ha, _, _, hb', h => by
    subst h; exact absurd (hb' c rfl) (ha c (List.mem_cons_self _ _))
  | c :: a, b, c' :: a', b', ha, ha', hb, hb', h => by
    obtain ⟨rfl, h'⟩ := List.cons.inj h
    obtain ⟨rfl, rfl⟩ := split_unique (fun x hx => ha x (List.mem_cons_of_mem _ hx))
      (fun x hx => ha' x (List.mem_cons_of_mem _ hx)) hb hb' h'
    exact ⟨rfl, rfl⟩

/-! ### A URI with an authority and nothing after it -/

lemma scheme_char {x : Char} (hx : x.isAlpha || x.isDigit || x == '+' || x == '-' || x == '.') :
    x ≠ ':' ∧ x ≠ '/' ∧ x ≠ '?' ∧ x ≠ '#' := by
  refine ⟨?_, ?_, ?_, ?_⟩ <;> rintro rfl <;> revert hx <;> decide

lemma Scheme.char {s : List Char} (h : Scheme s) : ∀ x ∈ s, x ≠ ':' ∧ x ≠ '/' ∧ x ≠ '?' ∧ x ≠ '#' := by
  obtain ⟨c, cs, rfl, hc, hcs⟩ := h
  rintro x (_ | ⟨_, hx⟩)
  exacts [scheme_char (by simp [hc]), scheme_char (hcs x hx)]

lemma Segment.head_ne {s : List Char} (h : Segment s) : ∀ c ∈ s.head?, c ≠ '/' := by
  cases h with
  | nil => nofun
  | char hc =>
    rintro c ⟨⟩ rfl
    revert hc; decide
  | pct => rintro c ⟨⟩; decide

/-- What comes after the scheme of a URI with the authority `a`, when `a` has no `/`, `?` or `#`:
that authority, no path, no query and no fragment. -/
lemma uri_authority_iff {s a : List Char} (hs : Scheme s) (ha : ∀ x ∈ a, x ≠ '/' ∧ x ≠ '?' ∧ x ≠ '#')
    {r : Parts} :
    URI (s ++ ':' :: '/' :: '/' :: a) r ↔
      ∃ ui v p, Authority a ui v p ∧ r = ⟨s, some (ui, v, p), [], none, none⟩ := by
  constructor
  · intro h
    generalize hu : s ++ ':' :: '/' :: '/' :: a = u at h
    obtain @⟨s', t, path, qt, ft, auth, q, f, hs', ht, hq, hf⟩ := h
    obtain ⟨rfl, ht'⟩ := split_unique (S := (· = ':')) (fun x hx => (hs.char x hx).1)
      (fun x hx => (hs'.char x hx).1) (by simp) (by simp) hu
    have hrest : '/' :: '/' :: a = t ++ (qt ++ ft) := (List.cons.inj ht').2
    have hnot : ∀ x ∈ t ++ (qt ++ ft), x ≠ '?' ∧ x ≠ '#' := by
      rw [← hrest]
      rintro x (_ | ⟨_, _ | ⟨_, hx⟩⟩)
      exacts [by decide, by decide, (ha x hx).2]
    obtain ⟨rfl, rfl⟩ : q = none ∧ qt = [] := by
      cases q with
      | none => exact ⟨rfl, hq⟩
      | some q => exact absurd rfl (hnot '?' (by simp [hq.2])).1
    obtain ⟨rfl, rfl⟩ : f = none ∧ ft = [] := by
      cases f with
      | none => exact ⟨rfl, hf⟩
      | some f => exact absurd rfl (hnot '#' (by simp [hf.2])).2
    simp only [List.append_nil] at hrest
    cases ht with
    | authority hA hp =>
      cases hp with
      | nil => simp only [List.append_nil, List.cons.injEq, true_and] at hrest; subst hrest; exact ⟨_, _, _, hA, rfl⟩
      | seg =>
        simp only [List.cons.injEq, true_and] at hrest
        exact absurd rfl (ha '/' (by simp [hrest])).1
    | absolute hp =>
      cases hp with
      | root => simp at hrest
      | seg hs₀ hne =>
        obtain ⟨c, s₀, rfl⟩ := List.exists_cons_of_ne_nil hne
        simp only [List.cons_append, List.cons.injEq] at hrest
        exact absurd hrest.2.1.symm (hs₀.head_ne c rfl)
    | rootless hp =>
      obtain ⟨hs₀, hne, -⟩ := hp
      obtain ⟨c, s₀, rfl⟩ := List.exists_cons_of_ne_nil hne
      simp only [List.cons_append, List.cons.injEq] at hrest
      exact absurd hrest.1.symm (hs₀.head_ne c rfl)
    | empty => simp at hrest
  · rintro ⟨ui, v, p, hA, rfl⟩
    have := @URI.mk s _ [] [] [] _ none none hs (.authority hA .nil) rfl rfl
    simpa using this

lemma authority_iff {a : List Char} (ha : '@' ∉ a) {ui : Option (List Char)} {v : List Char}
    {p : Option (List Char)} :
    Authority a ui v p ↔ ui = none ∧ ∃ ht pt, a = ht ++ pt ∧ Host ht v ∧ WithPort p pt := by
  constructor
  · intro h
    obtain @⟨ut, ht, pt, v, ui, p, hu, hh, hp⟩ := h
    cases ui with
    | some u => exact absurd (by simp [hu.2]) ha
    | none =>
      obtain rfl : ut = [] := hu
      exact ⟨rfl, ht, pt, rfl, hh, hp⟩
  · rintro ⟨rfl, ht, pt, rfl, hh, hp⟩
    exact @Authority.mk [] ht pt v none p rfl hh hp

lemma PctString.of_forall {ok : Char → Bool} : ∀ {cs : List Char}, (∀ c ∈ cs, ok c) → PctString ok cs
  | [], _ => .nil
  | _ :: _, h => .char (h _ (List.mem_cons_self _ _)) (of_forall fun c hc => h c (List.mem_cons_of_mem _ hc))

lemma WithPort.head {p : Option (List Char)} {pt : List Char} (h : WithPort p pt) :
    ∀ c ∈ pt.head?, c = ':' := by
  cases p with
  | none => obtain rfl : pt = [] := h; nofun
  | some p => rw [h.2]; rintro c ⟨⟩; rfl

lemma not_bracket {ht pt' rest : List Char} (hreg : ∀ c ∈ ht, RegChar c)
    (hP : ∀ c ∈ pt'.head?, c = ':') (he : '[' :: rest = ht ++ pt') : False := by
  cases ht with
  | nil => exact absurd (hP '[' (by rw [List.nil_append] at he; simp [← he])) (by decide)
  | cons x ht =>
    obtain ⟨rfl, -⟩ := List.cons.inj he
    exact absurd (hreg '[' (List.mem_cons_self _ _)) (by decide)

lemma host_reg_iff {h pt : List Char} (hh : ∀ c ∈ h, isUnreserved c || isSubDelim c)
    (hpt : ∀ c ∈ pt.head?, c = ':') {v : List Char} {p : Option (List Char)} :
    (∃ ht pt', h ++ pt = ht ++ pt' ∧ Host ht v ∧ WithPort p pt') ↔ v = h ∧ WithPort p pt := by
  constructor
  · rintro ⟨ht, pt', he, hH, hP⟩
    have hcol : ∀ c ∈ h, ¬c = ':' := fun c hc hc' => by
      have := hh c hc; subst hc'; revert this; decide
    cases hH with
    | literal =>
      cases h with
      | nil => exact absurd (hpt '[' (by rw [List.nil_append] at he; simp [he])) (by decide)
      | cons c h =>
        obtain ⟨rfl, -⟩ := List.cons.inj he
        exact absurd (hh '[' (List.mem_cons_self _ _)) (by decide)
    | v4 h4 =>
      obtain ⟨rfl, rfl⟩ := split_unique hcol (fun c hc hc' => absurd (h4.regChar c hc) (by subst hc'; decide))
        hpt hP.head he
      exact ⟨rfl, hP⟩
    | regName hr =>
      obtain ⟨rfl, rfl⟩ := split_unique hcol (fun c hc hc' => absurd (hr.regChar c hc) (by subst hc'; decide))
        hpt hP.head he
      exact ⟨rfl, hP⟩
  · rintro ⟨rfl, hp⟩
    exact ⟨v, pt, rfl, .regName (.of_forall hh), hp⟩

lemma host_literal_iff {c pt : List Char} (hc : ']' ∉ c) {v : List Char} {p : Option (List Char)} :
    (∃ ht pt', '[' :: (c ++ ']' :: pt) = ht ++ pt' ∧ Host ht v ∧ WithPort p pt') ↔
      IPLiteral c v ∧ WithPort p pt := by
  constructor
  · rintro ⟨ht, pt', he, hH, hP⟩
    cases hH with
    | literal hl =>
      simp only [List.cons_append, List.append_assoc, List.singleton_append, List.cons.injEq,
        true_and] at he
      obtain ⟨rfl, he'⟩ := split_unique (S := (· = ']')) (fun x hx hx' => hc (hx' ▸ hx))
        (fun x hx hx' => absurd (hl.mem x hx) (by subst hx'; decide)) (by simp) (by simp) he
      simp only [List.nil_append, List.cons.injEq, true_and] at he'
      subst he'
      exact ⟨hl, hP⟩
    | v4 h4 => exact (not_bracket h4.regChar hP.head he).elim
    | regName hr => exact (not_bracket hr.regChar hP.head he).elim
  · rintro ⟨hl, hp⟩
    exact ⟨'[' :: (c ++ [']']), pt, by simp, .literal hl, hp⟩

lemma ipLiteral_v6_iff {a v : List Char} (ha : IPv6address a) : IPLiteral a v ↔ v = a := by
  constructor
  · intro h
    cases h with
    | v6 => rfl
    | v6z => exact absurd (ha.mem '%' (by simp)) (by decide)
    | future hf =>
      obtain ⟨hv, -⟩ := hf
      rcases hv with rfl | rfl
      exacts [absurd (ha.mem 'v' (by simp)) (by decide), absurd (ha.mem 'V' (by simp)) (by decide)]
  · rintro rfl
    exact .v6 ha

/-- An IPv6 address, `%25` and `z` between brackets is the address with the zone `z` decoded,
when `z` is a `ZoneID`, and nothing otherwise. -/
lemma ipLiteral_zone_iff {a z v : List Char} (ha : IPv6address a) :
    IPLiteral (a ++ '%' :: '2' :: '5' :: z) v ↔
      PctString isUnreserved z ∧ z ≠ [] ∧ v = a ++ '%' :: pctDecode z := by
  have hpct : ∀ {b : List Char}, IPv6address b → ∀ c ∈ b, ¬c = '%' := fun hb c hc hc' =>
    absurd (hb.mem c hc) (by subst hc'; decide)
  constructor
  · intro h
    generalize hw : a ++ '%' :: '2' :: '5' :: z = w at h
    cases h with
    | v6 hw' => exact absurd (hw'.mem '%' (by simp [← hw])) (by decide)
    | v6z ha' hz hne =>
      obtain ⟨rfl, he⟩ := split_unique (hpct ha) (hpct ha') (by simp) (by simp) hw
      simp only [List.cons.injEq, true_and] at he
      subst he
      exact ⟨hz, hne, rfl⟩
    | future hf =>
      obtain @⟨x, hs, cs, hv, -⟩ := hf
      obtain ⟨y, a, rfl⟩ := List.exists_cons_of_ne_nil (List.ne_nil_of_mem ha.colon_mem)
      obtain ⟨rfl, -⟩ := List.cons.inj hw
      rcases hv with rfl | rfl
      exacts [absurd (ha.mem 'v' (by simp)) (by decide), absurd (ha.mem 'V' (by simp)) (by decide)]
  · rintro ⟨hz, hne, rfl⟩
    exact .v6z ha hz hne

end SimplePush.Uri
