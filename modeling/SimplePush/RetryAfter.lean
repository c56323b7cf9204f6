import SimplePush.Handlers

/-!
`ParseRetryAfter` of `net.go`.

A header is a number of seconds when `strconv.ParseInt` takes it, and an HTTP date otherwise;
`http.ParseTime` and `timeNow` are defined outside `net.go` and are parameters, times in
nanoseconds. The seconds become a `time.Duration` by an `int64` multiplication, which wraps
modulo 2^64: an integer header gives its own number of seconds exactly when that number is at
most 9223372036, and a larger or a very negative one comes back as some other duration, which
may be positive.
-/

namespace SimplePush.RetryAfter

open SimplePush.Messages SimplePush.Handlers

def wrap64 (x : Int) : Int := (x + 2 ^ 63) % 2 ^ 64 - 2 ^ 63

lemma wrap64_range (x : Int) : -2 ^ 63 ≤ wrap64 x ∧ wrap64 x < 2 ^ 63 := by
  unfold wrap64; omega

lemma wrap64_of_range {x : Int} (h₁ : -2 ^ 63 ≤ x) (h₂ : x < 2 ^ 63) : wrap64 x = x := by
  unfold wrap64; omega

/-- `strconv.ParseInt(s, 10, 64)`: a sign `+` or `-` may lead, `ParseUint` takes the rest, and
the value must fit in an `int64`. -/
def parseInt (s : String) : Option Int :=
  match s.data with
  | [] => none
  | c :: cs =>
    let neg := c = '-'
    match parseUint64 ⟨if c = '+' ∨ c = '-' then cs else c :: cs⟩ with
    | none => none
    | some un =>
      if ¬neg ∧ 2 ^ 63 ≤ un then none
      else if neg ∧ 2 ^ 63 < un then none
      else some (if neg then -(un : Int) else un)

def second : Int := 1000000000

def positive (d : Int) : Int × Bool := if 0 < d then (d, true) else (0, false)

/-- `ParseRetryAfter`, given `http.ParseTime` and the time `timeNow` returns. -/
def parseRetryAfter (parseTime : String → Option Int) (now : Int) (header : String) :
    Int × Bool :=
  if header.length = 0 then (0, false)
  else match parseInt header with
    | some sec => positive (wrap64 (sec * second))
    | none =>
      match parseTime header with
      | none => (0, false)
      | some t => positive (sub t now)

/-! ### Integer headers -/

lemma parseInt_spec {s : String} {n : Int} (h : parseInt s = some n) :
    s.length ≠ 0 ∧ -2 ^ 63 ≤ n ∧ n < 2 ^ 63 := by
  unfold parseInt at h
  split at h
  · cases h
  · rename_i c cs hs
    refine ⟨by simp [String.length, hs], ?_⟩
    split at h
    · cases h
    · dsimp only at h
      split_ifs at h with h₁ h₂ hc <;> cases h
      · have := not_and.1 h₂ hc; omega
      · have := not_and.1 h₁ hc; omega

section
variable {parseTime : String → Option Int} {now : Int}

lemma parseRetryAfter_of_parseInt {h : String} {n : Int} (hn : parseInt h = some n) :
    parseRetryAfter parseTime now h = positive (wrap64 (n * second)) := by
  rw [parseRetryAfter, if_neg (parseInt_spec hn).1, hn]

end

/-- **When an integer header is its own duration**: for every header `ParseInt` takes as `n`,
`ParseRetryAfter` returns `n` seconds and ok exactly when `0 < n ≤ 9223372036`. -/
theorem parseRetryAfter_exact_iff (parseTime : String → Option Int) (now : Int) (h : String)
    (n : Int) (hn : parseInt h = some n) :
    parseRetryAfter parseTime now h = (n * second, true) ↔ 0 < n ∧ n ≤ 9223372036 := by
  rw [parseRetryAfter_of_parseInt hn, positive]
  have hw := wrap64_range (n * second)
  constructor
  · intro he
    split_ifs at he with hpos
    · have hd : wrap64 (n * second) = n * second := (Prod.mk.inj he).1
      rw [hd] at hw hpos
      unfold second at hw hpos
      omega
    · exact absurd (congrArg Prod.snd he) Bool.false_ne_true
  · rintro ⟨h₁, h₂⟩
    have hd : wrap64 (n * second) = n * second := by
      apply wrap64_of_range <;> unfold second <;> omega
    rw [hd, if_pos (by unfold second; omega)]

theorem parseRetryAfter_two_minutes :
    parseInt "120" = some 120 ∧
      (parseRetryAfter (fun _ => none) 0 "120" = (120 * second, true) ↔
        (0 : Int) < 120 ∧ (120 : Int) ≤ 9223372036) :=
  ⟨rfl, parseRetryAfter_exact_iff _ _ "120" 120 rfl⟩

/-- `18446744074` seconds come back as about 0.29 s, and `-9223372037` seconds as about 292
years, both ok. -/
theorem parseRetryAfter_wraps (parseTime : String → Option Int) (now : Int) :
    parseInt "18446744074" = some 18446744074 ∧
      parseRetryAfter parseTime now "18446744074" = (290448384, true) ∧
      parseInt "-9223372037" = some (-9223372037) ∧
      parseRetryAfter parseTime now "-9223372037" = (9223372036709551616, true) :=
  ⟨rfl, parseRetryAfter_of_parseInt (h := "18446744074") (n := 18446744074) rfl, rfl,
    parseRetryAfter_of_parseInt (h := "-9223372037") (n := -9223372037) rfl⟩

end SimplePush.RetryAfter
