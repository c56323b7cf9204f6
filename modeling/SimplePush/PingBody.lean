import SimplePush.Sniffer
import SimplePush.JsonText

/-!
What `isPingBody` takes for a ping, against the empty object in white space and against the
grammar of JSON text.

The loop of `isPingBody` counts the braces and never looks at their order, and its fast path
takes every frame shorter than two bytes. So a frame it takes for a ping is one byte long, white
space only, or one `{` and one `}` in white space in either order. The bytes of a frame that are
not white space decide all of it, and every statement here goes through them. No JSON text
reaches the bad-payload branch: a JSON text made of braces and white space only is a padded
`{}`.
-/

namespace SimplePush.PingBody

open SimplePush.Json SimplePush.Sniffer SimplePush.JsonText

/-- The bytes the loop of `isPingBody` steps over: `{`, `}` and white space. -/
def braceOrSpace (b : UInt8) : Bool := b == 123 || b == 125 || isSpace b

/-- `W* o W* c W*`: the byte `o`, then the byte `c`, in white space. -/
def Padded (o c : UInt8) (raw : List UInt8) : Prop :=
  ∃ a b d, Ws a ∧ Ws b ∧ Ws d ∧ raw = a ++ o :: (b ++ c :: d)

/-- `W* ('{' W* '}')? W*`: an empty object in white space, or white space only. -/
def PingShape (raw : List UInt8) : Prop := Ws raw ∨ Padded 123 125 raw

def visible (raw : List UInt8) : List UInt8 := raw.filter fun b => !isSpace b

/-! ### The count of `isPingBody` -/

/-- The loop of `isPingBody` counts the braces of a frame of braces and white space, and gives
up on any other frame. -/
lemma countBraces_eq (raw : List UInt8) (l r : Nat) :
    countBraces raw (l, r) =
      if raw.all braceOrSpace then some (l + raw.count 123, r + raw.count 125) else none := by
  induction raw generalizing l r with
  | nil => simp [countBraces]
  | cons b bs ih =>
    by_cases h₁ : b = 123
    · subst h₁; simp only [countBraces, if_pos, ih]; simp [braceOrSpace, Nat.add_assoc, Nat.add_comm 1]
    by_cases h₂ : b = 125
    · subst h₂; simp only [countBraces, if_pos, ih]; simp [braceOrSpace, Nat.add_assoc, Nat.add_comm 1]
    simp only [countBraces, if_neg h₁, if_neg h₂, ih]
    cases hs : isSpace b <;>
      simp [braceOrSpace, hs, h₁, h₂, List.count_cons, beq_iff_eq, Ne.symm h₁, Ne.symm h₂]

lemma all_braceOrSpace_iff {raw : List UInt8} :
    raw.all braceOrSpace ↔ ∀ b ∈ visible raw, b = 123 ∨ b = 125 := by
  simp only [List.all_eq_true, visible, List.mem_filter, and_imp]
  refine forall₂_congr fun b _ => ?_
  cases hs : isSpace b <;> simp [braceOrSpace, hs]

lemma count_visible {raw : List UInt8} {c : UInt8} (hc : isSpace c = false) :
    (visible raw).count c = raw.count c :=
  List.count_filter (by simp [hc])

/-! ### Shapes, through the visible bytes -/

lemma ws_iff_visible {raw : List UInt8} : Ws raw ↔ visible raw = [] := by
  simp [visible, Ws, List.filter_eq_nil_iff]

lemma visible_append {a b : List UInt8} : visible (a ++ b) = visible a ++ visible b :=
  List.filter_append a b

lemma visible_cons {x : UInt8} {xs : List UInt8} :
    visible (x :: xs) = if isSpace x then visible xs else x :: visible xs := by
  cases h : isSpace x <;> simp [visible, List.filter_cons, h]

lemma padded_one {c : UInt8} :
    ∀ {raw : List UInt8}, visible raw = [c] → ∃ b d, Ws b ∧ Ws d ∧ raw = b ++ c :: d
  | [], h => nomatch h
  | x :: xs, h => by
    rw [visible_cons] at h
    split at h
    · obtain ⟨b, d, hb, hd, rfl⟩ := padded_one h
      exact ⟨x :: b, d, by simpa [Ws, *] using hb, hd, rfl⟩
    · obtain ⟨rfl, hxs⟩ := List.cons.inj h
      exact ⟨[], xs, ws_nil, ws_iff_visible.2 hxs, rfl⟩

lemma padded_iff_visible {o c : UInt8} (ho : isSpace o = false) (hc : isSpace c = false)
    {raw : List UInt8} : Padded o c raw ↔ visible raw = [o, c] := by
  constructor
  · rintro ⟨a, b, d, ha, hb, hd, rfl⟩
    simp [visible_append, visible_cons, ho, hc, ws_iff_visible.1 ha, ws_iff_visible.1 hb,
      ws_iff_visible.1 hd]
  · induction raw with
    | nil => nofun
    | cons x xs ih =>
      rw [visible_cons]
      split
      · intro h
        obtain ⟨a, b, d, ha, hb, hd, rfl⟩ := ih h
        exact ⟨x :: a, b, d, by simpa [Ws, *] using ha, hb, hd, rfl⟩
      · intro h
        obtain ⟨rfl, hxs⟩ := List.cons.inj h
        obtain ⟨b, d, hb, hd, rfl⟩ := padded_one hxs
        exact ⟨[], b, d, ws_nil, hb, hd, rfl⟩

lemma braces_balanced {v : List UInt8} (hv : ∀ b ∈ v, b = 123 ∨ b = 125) :
    (v.count 123 ≤ 1 ∧ v.count 123 = v.count 125) ↔ v = [] ∨ v = [123, 125] ∨ v = [125, 123] := by
  refine ⟨fun h => ?_, by rintro (rfl | rfl | rfl) <;> decide⟩
  match v, hv with
  | [], _ => exact .inl rfl
  | [x], hv =>
    rcases hv x (by simp) with rfl | rfl <;> simp at h
  | [x, y], hv =>
    rcases hv x (by simp) with rfl | rfl <;> rcases hv y (by simp) with rfl | rfl <;> simp at h ⊢
  | x :: y :: z :: t, hv =>
    have hx := List.count_cons x 123 (y :: z :: t)
    rcases hv x (by simp) with rfl | rfl <;> rcases hv y (by simp) with rfl | rfl <;>
      rcases hv z (by simp) with rfl | rfl <;> simp [List.count_cons] at h <;> omega

/-- `isPingBody` answers a ping exactly on frames shorter than two bytes and on those whose
visible bytes are nothing, `{}` or `}{`. -/
lemma isPingBody_eq_ping_iff {raw : List UInt8} :
    isPingBody raw = (true, none) ↔
      raw.length < 2 ∨ visible raw = [] ∨ visible raw = [123, 125] ∨ visible raw = [125, 123] := by
  unfold isPingBody
  by_cases hl : raw.length < 2
  · simp [hl]
  by_cases hf : raw = [123, 125]
  · subst hf; exact iff_of_true rfl (.inr (.inr (.inl rfl)))
  rw [if_neg (by tauto), countBraces_eq]
  by_cases ha : raw.all braceOrSpace
  · rw [if_pos ha, ← braces_balanced (all_braceOrSpace_iff.1 ha), count_visible (c := 123) rfl,
      count_visible (c := 125) rfl]
    simp only [Nat.zero_add, hl, false_or]
    split_ifs with h
    · exact iff_of_true rfl h
    · exact iff_of_false (by simp) h
  · rw [if_neg ha]
    simp only [hl, false_or, false_iff, Prod.mk.injEq, Bool.false_eq_true, false_and, not_false_eq_true]
    rintro (h | h | h) <;> exact ha (all_braceOrSpace_iff.2 fun b hb => by simp_all [or_comm])

/-! ### What the classifier takes for a ping -/

/-- **The pings of `isPingBody`**: a frame is taken for a ping exactly when it is one byte long,
white space with at most one empty object in it, or a `}` and then a `{` in white space. -/
theorem isPingBody_ping_iff (raw : List UInt8) :
    isPingBody raw = (true, none) ↔ raw.length = 1 ∨ PingShape raw ∨ Padded 125 123 raw := by
  rw [isPingBody_eq_ping_iff, PingShape, ws_iff_visible, padded_iff_visible (o := 123) (c := 125) rfl rfl,
    padded_iff_visible (o := 125) (c := 123) rfl rfl]
  constructor
  · rintro (h | h)
    · rcases Nat.lt_succ_iff_lt_or_eq.1 h with h | h
      · rw [List.length_eq_zero.1 (Nat.lt_one_iff.1 h)]; exact .inr (.inl (.inl rfl))
      · exact .inl h
    · exact .inr (or_assoc.2 h)
  · rintro (h | h)
    · exact .inl (by omega)
    · exact .inr (or_assoc.1 h)

/-- `}{` is taken for a ping and dispatched to `Ping`, although it is not white space with at
most an empty object in it. -/
theorem reversed_braces_ping :
    route (.ok [125, 123]) = .dispatch ⟨"ping"⟩ [125, 123] ∧
      isPingBody [125, 123] = (true, none) ∧ ¬PingShape [125, 123] := by
  refine ⟨rfl, ?_⟩
  simp only [PingShape, ws_iff_visible, padded_iff_visible (o := 123) (c := 125) rfl rfl]
  decide

/-! ### JSON texts -/

lemma not_braceOrSpace_of_mem {v : List UInt8} {x : UInt8} (hx : x ∈ v)
    (hb : ∀ b ∈ v, braceOrSpace b = true) (hbad : braceOrSpace x = false) : False := by
  simp [hb x hx] at hbad

lemma braceOrSpace_of_digit {d : UInt8} (hd : isDigit d = true) : braceOrSpace d = false := by
  simp only [isDigit, Bool.and_eq_true, decide_eq_true_eq] at hd
  simp only [braceOrSpace, isSpace, Bool.or_eq_false_iff, beq_eq_false_iff_ne, ne_eq]
  refine ⟨⟨?_, ?_⟩, ⟨⟨?_, ?_⟩, ?_⟩, ?_⟩ <;> rintro rfl <;> exact absurd hd (by decide)

lemma padded_of_value {v : List UInt8} (hv : Value v) (hb : ∀ b ∈ v, braceOrSpace b = true) :
    Padded 123 125 v := by
  cases hv with
  | falseLit => exact (not_braceOrSpace_of_mem (by simp) hb (x := 0x66) rfl).elim
  | nullLit => exact (not_braceOrSpace_of_mem (by simp) hb (x := 0x6E) rfl).elim
  | trueLit => exact (not_braceOrSpace_of_mem (by simp) hb (x := 0x74) rfl).elim
  | emptyObject ho hc =>
    obtain ⟨ha, hb'⟩ := ho
    obtain ⟨hc', hd⟩ := hc
    exact ⟨_, _, _, ha, ws_append.2 ⟨hb', hc'⟩, hd, by simp⟩
  | object _ hms _ =>
    exact (not_braceOrSpace_of_mem (by simp [hms.quote_mem]) hb (x := 0x22) rfl).elim
  | emptyArray ho _ => exact (not_braceOrSpace_of_mem (by simp [ho.mem]) hb (x := 0x5B) rfl).elim
  | array ho _ _ => exact (not_braceOrSpace_of_mem (by simp [ho.mem]) hb (x := 0x5B) rfl).elim
  | number hn =>
    obtain ⟨d, hd, hdig⟩ := hn.digit_mem
    exact (not_braceOrSpace_of_mem hd hb (braceOrSpace_of_digit hdig)).elim
  | string hs => exact (not_braceOrSpace_of_mem hs.quote_mem hb (x := 0x22) rfl).elim

lemma padded_of_text {raw : List UInt8} (ht : Text raw) (hb : ∀ b ∈ raw, braceOrSpace b = true) :
    Padded 123 125 raw := by
  obtain ⟨ha, hv, hd⟩ := ht
  obtain ⟨a, b, d, ha', hb', hd', rfl⟩ := padded_of_value hv fun x hx => hb x (by simp [hx])
  exact ⟨_, b, _, ws_append.2 ⟨ha, ha'⟩, hb', ws_append.2 ⟨hd', hd⟩, by simp⟩

/-- **No JSON text is a bad payload**: `isPingBody` returns no error on a JSON text, so the
receive loop never stops on one before decoding it, and it takes every empty object in white
space for a ping. -/
theorem json_text_not_bad_payload :
    (∀ raw, Text raw → (isPingBody raw).2 = none ∧ route (.ok raw) ≠ .badPayload) ∧
      ∀ raw, Padded 123 125 raw → isPingBody raw = (true, none) := by
  have hpad : ∀ raw, Padded 123 125 raw → isPingBody raw = (true, none) := fun raw h =>
    isPingBody_eq_ping_iff.2 (.inr (.inr (.inl ((padded_iff_visible (o := 123) (c := 125) rfl rfl).1 h))))
  refine ⟨fun raw ht => ?_, hpad⟩
  have hnone : (isPingBody raw).2 = none := by
    by_cases ha : raw.all braceOrSpace
    · rw [hpad raw (padded_of_text ht (List.all_eq_true.1 ha))]
    · unfold isPingBody
      split
      · rfl
      · rw [countBraces_eq, if_neg ha]
  refine ⟨hnone, ?_⟩
  simp only [route]
  split_ifs
  · nofun
  · generalize isPingBody raw = pb at hnone ⊢
    obtain ⟨_ | _, _ | _⟩ := pb
    · dsimp only
      split <;> nofun
    · cases hnone
    · nofun
    · cases hnone

theorem empty_object_text_ping :
    Text [123, 125] ∧ (isPingBody [123, 125]).2 = none ∧ route (.ok [123, 125]) ≠ .badPayload ∧
      Padded 123 125 [123, 125] ∧ isPingBody [123, 125] = (true, none) :=
  have ht : Text [123, 125] :=
    @Text.mk [] [123, 125] [] ws_nil
      (@Value.emptyObject [123] [125] (@Structural.mk _ [] [] ws_nil ws_nil)
        (@Structural.mk _ [] [] ws_nil ws_nil)) ws_nil
  have hp : Padded 123 125 [123, 125] := ⟨[], [], [], ws_nil, ws_nil, ws_nil, rfl⟩
  ⟨ht, (json_text_not_bad_payload.1 _ ht).1, (json_text_not_bad_payload.1 _ ht).2, hp,
    json_text_not_bad_payload.2 _ hp⟩

end SimplePush.PingBody
