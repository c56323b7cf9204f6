import SimplePush.Uri

/-!
`CanonicalURL` and `defaultPorts` of `net.go`, and how a client reads the URL back.

`CanonicalURL` percent-encodes every `%` of a host with a zone as RFC 6874 asks, brackets a host
with a zone or a colon, and leaves out a port that is empty or the scheme's default. For every
scheme, every port of digits and every host that is a reg-name, an IPv6 address, or an IPv6
address with a zone that is not empty, the URL has exactly one derivation as a URI, and it gives
back the scheme, the host and the port. An empty zone is written as `%25` with nothing after it,
which no IP literal derives, so that URL is no URI at all.
-/

namespace SimplePush.CanonicalURL

open SimplePush.Uri

/-! ### The code -/

def defaultPorts : List (String × String) :=
  [("https", "443"), ("wss", "443"), ("http", "80"), ("ws", "80")]

/-- `defaultPorts[scheme]`: the empty string for a scheme the map does not have. -/
def defaultPort (scheme : String) : String := (defaultPorts.lookup scheme).getD ""

/-- `strings.Replace` of every `%` by `%25`, on characters. -/
def escape (cs : List Char) : List Char := cs.flatMap fun c => if c = '%' then ['%', '2', '5'] else [c]

def canonicalURL (scheme host port : String) : String :=
  let hasZone := '%' ∈ host.data
  let host : String := if hasZone then ⟨escape host.data⟩ else host
  let host := if hasZone ∨ ':' ∈ host.data then "[" ++ host ++ "]" else host
  if port.length = 0 ∨ defaultPort scheme = port then scheme ++ "://" ++ host
  else scheme ++ "://" ++ host ++ ":" ++ port

/-! ### What the URL is made of -/

def hostText (h : List Char) : List Char :=
  if '%' ∈ h then '[' :: (escape h ++ [']']) else if ':' ∈ h then '[' :: (h ++ [']']) else h

def portPart (scheme port : String) : Option (List Char) :=
  if port.length = 0 ∨ defaultPort scheme = port then none else some port.data

def portText : Option (List Char) → List Char
  | none => []
  | some p => ':' :: p

lemma escape_cons {c : Char} {cs : List Char} :
    escape (c :: cs) = (if c = '%' then ['%', '2', '5'] else [c]) ++ escape cs := rfl

lemma escape_of_not_mem {cs : List Char} (h : '%' ∉ cs) : escape cs = cs := by
  induction cs with
  | nil => rfl
  | cons c cs ih =>
    rw [List.mem_cons, not_or] at h
    rw [escape_cons, if_neg (Ne.symm h.1), ih h.2]; rfl

lemma escape_append {a b : List Char} : escape (a ++ b) = escape a ++ escape b :=
  List.flatMap_append _ _ _

lemma mem_escape {x : Char} {cs : List Char} (hx : x ≠ '2' ∧ x ≠ '5') : x ∈ escape cs ↔ x ∈ cs := by
  simp only [escape, List.mem_flatMap]
  constructor
  · rintro ⟨c, hc, hm⟩
    split at hm
    · simp only [List.mem_cons, List.not_mem_nil, or_false] at hm
      rcases hm with rfl | rfl | rfl
      exacts [by subst_vars; exact hc, absurd rfl hx.1, absurd rfl hx.2]
    · rw [List.mem_singleton.1 hm]; exact hc
  · intro h
    refine ⟨x, h, ?_⟩
    split <;> simp_all

lemma canonicalURL_data (s h p : String) :
    (canonicalURL s h p).data = s.data ++ ':' :: '/' :: '/' :: (hostText h.data ++ portText (portPart s p)) := by
  have hc : ':' ∈ escape h.data ↔ ':' ∈ h.data := mem_escape (by decide)
  unfold canonicalURL hostText portPart
  by_cases hz : '%' ∈ h.data <;> by_cases hcol : ':' ∈ h.data <;>
    by_cases hp : p.length = 0 ∨ defaultPort s = p <;>
    simp only [hz, hcol, hc, hp, ↓reduceIte, or_self, or_false, or_true, portText, String.data_append,
      List.singleton_append, List.cons_append, List.append_assoc, List.append_nil, List.nil_append]

/-! ### The hosts and how they read back -/

/-- The hosts of the statement: a `reg-name` without `%`, which is made of unreserved characters
and `sub-delims` (an IPv4 address is one); an IPv6 address; or an IPv6 address followed by `%`
and a zone of unreserved characters and `%` that is not empty. -/
inductive UrlHost : List Char → Prop
  | regName {h : List Char} : (∀ c ∈ h, isUnreserved c || isSubDelim c) → UrlHost h
  | v6 {a : List Char} : IPv6address a → UrlHost a
  | zoned {a z : List Char} : IPv6address a → z ≠ [] → (∀ c ∈ z, isUnreserved c || c == '%') →
      UrlHost (a ++ '%' :: z)

lemma mem_escape_of {x : Char} {cs : List Char} (h : x ∈ escape cs) :
    x ∈ cs ∨ x = '%' ∨ x = '2' ∨ x = '5' := by
  simp only [escape, List.mem_flatMap] at h
  obtain ⟨c, hc, hm⟩ := h
  split at hm
  · simp only [List.mem_cons, List.not_mem_nil, or_false] at hm
    exact .inr hm
  · rw [List.mem_singleton.1 hm]; exact .inl hc

lemma not_mem_of_v6 {a : List Char} (ha : IPv6address a) {x : Char} (hx : ¬V6Char x) : x ∉ a :=
  fun h => hx (ha.mem x h)

lemma hostText_reg {h : List Char} (hr : ∀ c ∈ h, isUnreserved c || isSubDelim c) :
    hostText h = h := by
  have hnot : ∀ x, ¬(isUnreserved x || isSubDelim x) → x ∉ h := fun x hx hm => hx (hr x hm)
  rw [hostText, if_neg (hnot '%' (by decide)), if_neg (hnot ':' (by decide))]

lemma hostText_v6 {a : List Char} (ha : IPv6address a) : hostText a = '[' :: (a ++ [']']) := by
  rw [hostText, if_neg (not_mem_of_v6 ha (by decide)), if_pos ha.colon_mem]

lemma hostText_zoned {a z : List Char} (ha : IPv6address a) :
    hostText (a ++ '%' :: z) = '[' :: (a ++ '%' :: '2' :: '5' :: (escape z ++ [']'])) := by
  rw [hostText, if_pos (by simp), escape_append, escape_of_not_mem (not_mem_of_v6 ha (by decide)),
    escape_cons, if_pos rfl]
  simp

lemma escape_zone {z : List Char} (hz : ∀ c ∈ z, isUnreserved c || c == '%') :
    PctString isUnreserved (escape z) ∧ pctDecode (escape z) = z := by
  induction z with
  | nil => exact ⟨.nil, rfl⟩
  | cons c z ih =>
    obtain ⟨hp, hd⟩ := ih fun x hx => hz x (List.mem_cons_of_mem _ hx)
    rw [escape_cons]
    by_cases h : c = '%'
    · subst h
      refine ⟨.pct (by decide) (by decide) hp, ?_⟩
      rw [if_pos rfl]
      show pctDecode ('%' :: '2' :: '5' :: escape z) = _
      rw [pctDecode, if_pos (by decide), hd]
      rfl
    · have hu : isUnreserved c := by simpa [h] using hz c (List.mem_cons_self _ _)
      rw [if_neg h]
      refine ⟨.char hu hp, ?_⟩
      show pctDecode (c :: escape z) = c :: z
      rw [pctDecode_cons h, hd]

lemma withPort_portText {pp : Option (List Char)} (hpp : ∀ q, pp = some q → ∀ c ∈ q, c.isDigit)
    {p : Option (List Char)} : WithPort p (portText pp) ↔ p = pp := by
  cases pp with
  | none => cases p <;> simp [WithPort, portText]
  | some q =>
    cases p with
    | none => simp [WithPort, portText]
    | some q' =>
      simp only [WithPort, portText, List.cons.injEq, true_and, Option.some.injEq]
      exact ⟨fun h => h.2.symm, fun h => by subst h; exact ⟨hpp _ rfl, rfl⟩⟩

lemma authority_char {h : List Char} (hh : UrlHost h) {pp : Option (List Char)}
    (hpp : ∀ q, pp = some q → ∀ c ∈ q, c.isDigit) :
    ∀ c ∈ hostText h ++ portText pp, LitChar c ∨ c = '[' ∨ c = ']' := by
  intro c hc
  rcases List.mem_append.1 hc with hc | hc
  · cases hh with
    | regName hr =>
      rw [hostText_reg hr] at hc
      have := hr c hc
      simp only [Bool.or_eq_true] at this
      exact .inl (this.elim (.inr ∘ .inl) (.inr ∘ .inr ∘ .inl))
    | v6 ha =>
      rw [hostText_v6 ha] at hc
      simp only [List.mem_cons, List.mem_append, List.mem_singleton, List.not_mem_nil, or_false] at hc
      rcases hc with rfl | hc | rfl
      exacts [.inr (.inl rfl), .inl (litChar_of_v6Char (ha.mem c hc)), .inr (.inr rfl)]
    | zoned ha _ hz =>
      rw [hostText_zoned ha] at hc
      simp only [List.mem_cons, List.mem_append, List.mem_singleton, List.not_mem_nil, or_false] at hc
      rcases hc with rfl | hc | rfl | rfl | rfl | hc | rfl
      · exact .inr (.inl rfl)
      · exact .inl (litChar_of_v6Char (ha.mem c hc))
      · exact .inl (by decide)
      · exact .inl (by decide)
      · exact .inl (by decide)
      · rcases mem_escape_of hc with hc | rfl | rfl | rfl
        · have := hz c hc
          simp only [Bool.or_eq_true, beq_iff_eq] at this
          exact .inl (this.elim (.inr ∘ .inl) (.inr ∘ .inr ∘ .inr ∘ .inr))
        all_goals exact .inl (by decide)
      · exact .inr (.inr rfl)
  · cases pp with
    | none => exact absurd hc (List.not_mem_nil _)
    | some q =>
      rcases List.mem_cons.1 hc with rfl | hc
      exacts [.inl (by decide), .inl (.inl (isHexDig_of_isDigit (hpp q rfl c hc)))]

/-- The authority `CanonicalURL` writes has no userinfo, and gives back the host and the port. -/
lemma authority_canonical {h : List Char} (hh : UrlHost h) {pp : Option (List Char)}
    (hpp : ∀ q, pp = some q → ∀ c ∈ q, c.isDigit) {ui : Option (List Char)} {v : List Char}
    {p : Option (List Char)} :
    Authority (hostText h ++ portText pp) ui v p ↔ ui = none ∧ v = h ∧ p = pp := by
  have hat : '@' ∉ hostText h ++ portText pp := fun hm => by
    rcases authority_char hh hpp '@' hm with h | h | h <;> revert h <;> decide
  have hhead : ∀ c ∈ (portText pp).head?, c = ':' := by
    cases pp <;> simp [portText]
  rw [authority_iff hat, ← withPort_portText hpp]
  cases hh with
  | regName hr => rw [hostText_reg hr, host_reg_iff hr hhead]
  | v6 ha =>
    have e : hostText h ++ portText pp = '[' :: (h ++ ']' :: portText pp) := by
      rw [hostText_v6 ha]; simp
    rw [e, host_literal_iff (not_mem_of_v6 ha (by decide)), ipLiteral_v6_iff ha]
  | zoned ha hne hz =>
    obtain ⟨hpz, hdz⟩ := escape_zone hz
    have hne' : escape _ ≠ [] := fun he => hne (by rw [← hdz, he]; rfl)
    rename_i a z
    have e : hostText (a ++ '%' :: z) ++ portText pp =
        '[' :: ((a ++ '%' :: '2' :: '5' :: escape z) ++ ']' :: portText pp) := by
      rw [hostText_zoned ha]; simp
    have hc : ']' ∉ a ++ '%' :: '2' :: '5' :: escape z := by
      simp only [List.mem_append, List.mem_cons, not_or]
      refine ⟨not_mem_of_v6 ha (by decide), by decide, by decide, by decide, fun hm => ?_⟩
      rcases mem_escape_of hm with hm | h | h | h
      · have := hz _ hm
        revert this; decide
      all_goals exact absurd h (by decide)
    rw [e, host_literal_iff hc, ipLiteral_zone_iff ha, hdz]
    simp [hpz, hne']

lemma portPart_digits {s p : String} (hp : ∀ c ∈ p.data, c.isDigit) :
    ∀ q, portPart s p = some q → ∀ c ∈ q, c.isDigit := by
  unfold portPart
  split
  · nofun
  · rintro q ⟨⟩; exact hp

/-! ### Reading the URL back -/

/-- **The canonical URL reads back**: for every scheme, every port of digits (or none) and every
host that is a reg-name, an IPv6 address or one with a zone that is not empty, the URL
`CanonicalURL` writes has exactly one derivation as a URI: the scheme, no userinfo, the host with
its zone decoded, the port unless it is empty or the scheme's default, and no path, query or
fragment. -/
theorem canonicalURL_uri_iff (s h p : String) (hs : Scheme s.data) (hp : ∀ c ∈ p.data, c.isDigit)
    (hh : UrlHost h.data) (r : Parts) :
    URI (canonicalURL s h p).data r ↔ r = ⟨s.data, some (none, h.data, portPart s p), [], none, none⟩ := by
  have hpp := portPart_digits (s := s) hp
  have hdelim : ∀ x ∈ hostText h.data ++ portText (portPart s p), x ≠ '/' ∧ x ≠ '?' ∧ x ≠ '#' := by
    intro x hx
    rcases authority_char hh hpp x hx with hl | rfl | rfl
    · refine ⟨?_, ?_, ?_⟩ <;> rintro rfl <;> exact absurd hl (by decide)
    all_goals decide
  rw [canonicalURL_data, uri_authority_iff hs hdelim]
  constructor
  · rintro ⟨ui, v, q, ha, rfl⟩
    obtain ⟨rfl, rfl, rfl⟩ := (authority_canonical hh hpp).1 ha
    rfl
  · rintro rfl
    exact ⟨_, _, _, (authority_canonical hh hpp).2 ⟨rfl, rfl, rfl⟩, rfl⟩

lemma fe80_one : IPv6address ['f', 'e', '8', '0', ':', ':', '1'] :=
  .h16 (p := ['f', 'e', '8', '0']) (.some (n := 0) (a := []) (Nat.zero_le _) .zero (by unfold H16; decide))
    (by unfold H16; decide)

/-- `wss` to `fe80::1` with the zone `eth0` on the default port: the zone comes back decoded
and there is no port. -/
theorem canonicalURL_uri_zoned :
    Scheme "wss".data ∧ (∀ c ∈ "443".data, c.isDigit) ∧ UrlHost "fe80::1%eth0".data ∧
      URI (canonicalURL "wss" "fe80::1%eth0" "443").data
        ⟨"wss".data, some (none, "fe80::1%eth0".data, none), [], none, none⟩ :=
  have hs : Scheme "wss".data := ⟨'w', ['s', 's'], rfl, rfl, by decide⟩
  have hh : UrlHost "fe80::1%eth0".data := .zoned (a := ['f', 'e', '8', '0', ':', ':', '1'])
    (z := ['e', 't', 'h', '0']) fe80_one (by decide) (by decide)
  ⟨hs, by decide, hh, (canonicalURL_uri_iff "wss" "fe80::1%eth0" "443" hs (by decide) hh _).2 rfl⟩

/-- An empty zone: `fe80::1` followed by `%` becomes `[fe80::1%25]`, and no URI derives the URL. -/
theorem canonicalURL_empty_zone :
    IPv6address "fe80::1".data ∧ ¬∃ r, URI (canonicalURL "http" "fe80::1%" "").data r := by
  refine ⟨fe80_one, ?_⟩
  rintro ⟨r, hr⟩
  have e : (canonicalURL "http" "fe80::1%" "").data = "http".data ++ ':' :: '/' :: '/' ::
      '[' :: ((['f', 'e', '8', '0', ':', ':', '1'] ++ ['%', '2', '5']) ++ ']' :: []) := by
    decide
  rw [e, uri_authority_iff (s := "http".data) ⟨'h', ['t', 't', 'p'], rfl, rfl, by decide⟩ (by decide)] at hr
  obtain ⟨ui, v, q, ha, -⟩ := hr
  obtain ⟨-, hl⟩ := (authority_iff (by decide)).1 ha
  have := ((host_literal_iff (by decide)).1 hl).1
  exact ((ipLiteral_zone_iff fe80_one).1 this).2.1 rfl

end SimplePush.CanonicalURL
