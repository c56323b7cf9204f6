import SimplePush.Listener

/-!
The connection counter of `LimitListener` over every interleaving.

The counter holds, modulo `2^32`, the number of connections `Accept` returned whose `Close` has
not been called: `addConn` adds one, and only the first `Close` of a connection takes one
away, through its `removeOnce`. So `ConnCount` is that number while it stays below `2^31`, and
it wraps past that. The bound `MaxConns` is checked in one step and the counter raised in a
later one, so callers of `Accept` that check before either raises it are all admitted; a
single caller never goes past the bound while it is below `2^31`.
-/

namespace SimplePush.ConnCount

open SimplePush.Listener SimplePush.Listener.LimitListener

variable {l l' : LimitListener} {e : Step}

/-! ### Steps -/

lemma step_cases (h : step l e = some l') :
    ((∀ i, e ≠ .addConn i) ∧ (∀ j, e = .closeConn j → l.removed[j]? = some true) ∧
      l'.conns = l.conns ∧ l'.removed = l.removed) ∨
    (∃ i, e = .addConn i ∧ l'.conns = l.conns + 1 ∧ l'.removed = l.removed ++ [false]) ∨
    (∃ j, e = .closeConn j ∧ l.removed[j]? = some false ∧ l'.conns = l.conns - 1 ∧
      l'.removed = l.removed.set j true) := by
  cases e
  case closeConn j =>
    simp only [step] at h
    split at h <;> cases h
    · exact .inr (.inr ⟨j, rfl, ‹_›, rfl, rfl⟩)
    · exact .inl ⟨nofun, fun _ he => by cases he; assumption, rfl, rfl⟩
  case addConn i =>
    simp only [step] at h
    split_ifs at h; cases h
    exact .inr (.inl ⟨i, rfl, rfl, rfl⟩)
  case close => cases h; exact .inl ⟨nofun, nofun, rfl, rfl⟩
  all_goals
    simp only [step] at h
    split_ifs at h <;> cases h <;> exact .inl ⟨nofun, nofun, rfl, rfl⟩

lemma live_set {j : Nat} (h : l.removed[j]? = some false) :
    (l.removed.set j true).count false + 1 = l.removed.count false := by
  obtain ⟨hj, hget⟩ := List.getElem?_eq_some_iff.1 h
  have hpos : 0 < l.removed.count false := List.count_pos_iff.2 (List.mem_iff_getElem?.2 ⟨j, h⟩)
  rw [List.count_set _ _ _ _ hj, hget]
  simp
  omega

/-- How a step moves the counter and the live connections: up by one at `addConn`, down by one
at the first `Close` of a connection, which marks it closed, and not at all for any other step
or a later `Close`. -/
def Moves (l : LimitListener) (e : Step) (l' : LimitListener) : Prop :=
  ((∀ i, e ≠ .addConn i) ∧ (∀ j, e = .closeConn j → l.removed[j]? = some true) ∧
    l'.conns = l.conns ∧ l'.live = l.live) ∨
  (∃ i, e = .addConn i ∧ l'.conns = l.conns + 1 ∧ l'.live = l.live + 1) ∨
  (∃ j, e = .closeConn j ∧ l.removed[j]? = some false ∧ l'.removed[j]? = some true ∧
    l'.conns = l.conns - 1 ∧ l'.live + 1 = l.live)

lemma step_moves (h : step l e = some l') : Moves l e l' := by
  rcases step_cases h with ⟨ha, hc, h₁, h₂⟩ | ⟨i, rfl, h₁, h₂⟩ | ⟨j, rfl, hj, h₁, h₂⟩
  · exact .inl ⟨ha, hc, h₁, by simp only [live, h₂]⟩
  · exact .inr (.inl ⟨i, rfl, h₁, by simp [live, h₂]⟩)
  · have hlen : j < l.removed.length := (List.getElem?_eq_some_iff.1 hj).1
    exact .inr (.inr ⟨j, rfl, hj, by simp [h₂, hlen], h₁,
      by simp only [live, h₂]; exact live_set hj⟩)

/-- What the counter tells in a listener state: the live connections modulo `2^32`, the live
connections themselves below `2^31`, and which steps move them. -/
structure Tracked (l : LimitListener) : Prop where
  counter : l.conns = BitVec.ofNat 32 l.live
  connCount : l.live < 2 ^ 31 → l.connCount = l.live
  steps : ∀ e l', step l e = some l' → Moves l e l'

lemma step_counted (h : step l e = some l') (hc : l.conns = BitVec.ofNat 32 l.live) :
    l'.conns = BitVec.ofNat 32 l'.live := by
  rcases step_cases h with ⟨-, -, h₁, h₂⟩ | ⟨_, -, h₁, h₂⟩ | ⟨j, -, hj, h₁, h₂⟩ <;>
    simp only [live, h₁, h₂] at hc ⊢
  · exact hc
  · rw [List.count_append, BitVec.ofNat_add, hc]; rfl
  · rw [hc, ← live_set hj, BitVec.ofNat_add]
    exact BitVec.add_sub_cancel _ _

lemma toInt_ofNat_of_lt {m : Nat} (hm : m < 2 ^ 31) : (BitVec.ofNat 32 m).toInt = m := by
  rw [BitVec.toInt_ofNat, Int.bmod_def]
  have : (m : Int) % (2 ^ 32 : Nat) = m := Int.emod_eq_of_lt (by omega) (by omega)
  rw [this, if_pos (by omega)]

/-! ### Every run -/

/-- **Connection count**: every reachable listener state is `Tracked`. -/
theorem conn_count_tracks_live {N : Int} {n : Nat} (h : Reachable N n l) : Tracked l := by
  have hc : l.conns = BitVec.ofNat 32 l.live := by
    induction h with
    | init => rfl
    | step _ hs ih => exact step_counted hs ih
  refine ⟨hc, fun hlt => ?_, fun _ _ => step_moves⟩
  rw [connCount, hc, toInt_ofNat_of_lt hlt]

theorem conn_count_tracks_init : Tracked (init 1 1) := conn_count_tracks_live .init

/-! ### Past `2^31` connections -/

/-- A listener with `MaxConns = 2^31`, one caller between calls, and `m` live connections. -/
def filled (m : Nat) : LimitListener :=
  ⟨2 ^ 31, BitVec.ofNat 32 m, false, [.idle], List.replicate m false⟩

@[simp] lemma filled_live (m : Nat) : (filled m).live = m := List.count_replicate_self _ _

lemma filled_succ {m : Nat} (hm : m < 2 ^ 31) :
    run (filled m) [.closeCheck 0, .countCheck 0, .accept 0 true, .addConn 0] =
      some (filled (m + 1)) := by
  have hlt : ¬((2147483648 : Int) ≤ m) := by omega
  simp [run, step, filled, setPhase, connCount, toInt_ofNat_of_lt hm, hlt, BitVec.ofNat_add,
    List.replicate_succ']

lemma filled_reachable : ∀ m ≤ 2 ^ 31, Reachable (2 ^ 31) 1 (filled m)
  | 0, _ => .init
  | m + 1, hm => (filled_reachable m (by omega)).run (filled_succ (by omega))

/-- After `2^31` accepted connections and no `Close`, `ConnCount` is `-2^31`. -/
theorem conn_count_wraps :
    Reachable (2 ^ 31) 1 (filled (2 ^ 31)) ∧ (filled (2 ^ 31)).connCount = -2 ^ 31 ∧
      (filled (2 ^ 31)).live = 2 ^ 31 :=
  ⟨filled_reachable _ (by decide), by
    rw [connCount, filled, BitVec.toInt_ofNat]; rfl, filled_live _⟩

/-! ### One caller of `Accept` -/

/-- What a listener with one caller of `Accept` keeps: the bound, the counter, and that the
caller is past the count check only while there is room. -/
structure WithinLimit (N : Int) (l : LimitListener) : Prop where
  limit : l.maxConns = N
  one : l.callers.length = 1
  counter : l.conns = BitVec.ofNat 32 l.live
  bound : (l.live : Int) ≤ max N 0
  admitted : ∀ p ∈ l.callers, p = .accepting ∨ p = .adding → (l.live : Int) < N

lemma WithinLimit.setPhase {N : Int} (hl : WithinLimit N l) {i : Nat} {p : Phase}
    (hp : p = .accepting ∨ p = .adding → (l.live : Int) < N) : WithinLimit N (l.setPhase i p) :=
  ⟨hl.limit, by simp [LimitListener.setPhase, hl.one], hl.counter, hl.bound,
    fun q hq => (List.mem_or_eq_of_mem_set hq).elim (hl.admitted q) fun h => h ▸ hp⟩

lemma withinLimit_step {N : Int} (hN : N < 2 ^ 31) (hl : WithinLimit N l)
    (h : step l e = some l') : WithinLimit N l' := by
  have hcount : l.connCount = l.live := by
    rw [connCount, hl.counter, toInt_ofNat_of_lt (by have := hl.bound; omega)]
  have counter := step_counted h hl.counter
  cases e with
  | closeCheck i =>
    simp only [step] at h
    split at h <;> cases h
    exact hl.setPhase (by split <;> rintro (h | h) <;> cases h)
  | countCheck i =>
    simp only [step] at h
    split at h <;> cases h
    refine hl.setPhase ?_
    split
    · rintro (h | h) <;> cases h
    · next hlt => intro _; rw [hcount, hl.limit] at hlt; omega
  | accept i ok =>
    simp only [step] at h
    split at h <;> cases h
    rename_i hi
    exact hl.setPhase fun _ => hl.admitted _ (List.mem_iff_getElem?.2 ⟨i, hi⟩) (.inl rfl)
  | addConn i =>
    simp only [step] at h
    split_ifs at h with hi; cases h
    have hroom := hl.admitted _ (List.mem_iff_getElem?.2 ⟨i, hi⟩) (.inr rfl)
    obtain ⟨c, hc⟩ := List.length_eq_one.1 hl.one
    obtain rfl : i = 0 := by
      rw [hc] at hi
      cases i
      · rfl
      · simp at hi
    refine ⟨hl.limit, by simp [LimitListener.setPhase, hl.one], counter, ?_, ?_⟩
    · simp only [live, List.count_append, List.count_singleton_self] at hroom ⊢
      omega
    · simp [LimitListener.setPhase, hc]
  | closeConn j =>
    simp only [step] at h
    split at h <;> cases h
    · have hj := live_set ‹_›
      refine ⟨hl.limit, hl.one, counter, ?_, fun q hq hp => ?_⟩
      · have := hl.bound; simp only [live] at this ⊢; omega
      · have := hl.admitted q hq hp; simp only [live] at this ⊢; omega
    · exact hl
  | close => cases h; exact ⟨hl.limit, hl.one, hl.counter, hl.bound, hl.admitted⟩

/-- **One caller**: with a single caller of `Accept` and `MaxConns` below `2^31`, the live
connections never exceed `MaxConns`. -/
theorem one_caller_within_limit {N : Int} (hN : N < 2 ^ 31) (h : Reachable N 1 l) :
    (l.live : Int) ≤ max N 0 := by
  suffices hl : WithinLimit N l from hl.bound
  induction h with
  | init => exact ⟨rfl, rfl, rfl, by simp only [init, live, List.count_nil]; omega, by simp [init]⟩
  | step _ hs ih => exact withinLimit_step hN ih hs

theorem one_caller_accepts_to_limit :
    ∃ l, Reachable 1 1 l ∧ l.live = 1 ∧ (l.live : Int) ≤ max 1 0 := by
  obtain ⟨l, hr, hl⟩ : ∃ l, run (init 1 1) [.closeCheck 0, .countCheck 0, .accept 0 true,
      .addConn 0] = some l ∧ l.live = 1 := ⟨_, rfl, by decide⟩
  exact ⟨l, Reachable.init.run hr, hl, one_caller_within_limit (by decide) (Reachable.init.run hr)⟩

/-! ### Two callers of `Accept` -/

def raceTrace : List Step :=
  [.closeCheck 0, .closeCheck 1, .countCheck 0, .countCheck 1, .accept 0 true, .accept 1 true,
    .addConn 0, .addConn 1]

/-- With `MaxConns = 1`, two callers of `Accept` both return a connection. -/
theorem accept_race : ∃ l, Reachable 1 2 l ∧ l.live = 2 := by
  obtain ⟨l, hl⟩ : ∃ l, run (init 1 2) raceTrace = some l ∧ l.live = 2 := ⟨_, rfl, by decide⟩
  exact ⟨l, Reachable.init.run hl.1, hl.2⟩

end SimplePush.ConnCount
