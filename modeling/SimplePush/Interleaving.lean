import Mathlib.Logic.Relation
import SimplePush.Program

/-!
Worker programs run side by side over a shared world.

A system is the world and one program per thread. A step lets a thread make its next request,
answered as `Serve` allows, or is a step `Env` of a party that runs no worker code (the Router
storing an update, or starting a `Flush`). A world that answers by a function replays one
interleaving, so that a counterexample is a run the kernel evaluates.
-/

namespace SimplePush.Interleaving

open SimplePush.Program
open SimplePush.Program.Prog (Asks)

/-- A world and one program per thread. -/
structure Sys (W α : Type) where
  world : W
  threads : List (Prog α)

variable {W α E : Type}

section
variable (Serve : W → (r : Req) → r.Resp → W → Prop) (Env : Sys W α → Sys W α → Prop)

inductive Step : Sys W α → Sys W α → Prop
  | thread {σ : Sys W α} {i : Nat} {r : Req} {k : r.Resp → Prog α} {x : r.Resp} {w' : W} :
      σ.threads[i]? = some (.call r k) → Serve σ.world r x w' →
        Step σ ⟨w', σ.threads.set i (k x)⟩
  | env {σ σ' : Sys W α} : Env σ σ' → Step σ σ'

/-- The states reachable from `σ₀`. -/
def Reachable (σ₀ σ : Sys W α) : Prop := Relation.ReflTransGen (Step Serve Env) σ₀ σ

/-- A world invariant holds in every reachable state when the threads ask only requests `P`,
every answer to such a request keeps it, and every environment step keeps it and starts only
threads that ask `P`. -/
theorem Reachable.induct {P : Req → Prop} {I : W → Prop}
    (hserve : ∀ w r x w', P r → Serve w r x w' → I w → I w')
    (henv : ∀ σ σ', Env σ σ' → (∀ t ∈ σ.threads, Asks P t) → I σ.world →
      I σ'.world ∧ ∀ t ∈ σ'.threads, Asks P t)
    {σ₀ σ : Sys W α} (h : Reachable Serve Env σ₀ σ) (hI : I σ₀.world)
    (hP : ∀ t ∈ σ₀.threads, Asks P t) : I σ.world ∧ ∀ t ∈ σ.threads, Asks P t := by
  induction h with
  | refl => exact ⟨hI, hP⟩
  | tail _ hs ih =>
    obtain ⟨hI', hP'⟩ := ih
    cases hs with
    | @thread i r k x w' hi hsv =>
      have hask : Asks P (.call r k) := hP' _ (List.mem_iff_getElem?.2 ⟨i, hi⟩)
      refine ⟨hserve _ _ _ _ hask.1 hsv hI', fun t ht => ?_⟩
      rcases List.mem_or_eq_of_mem_set ht with ht | rfl
      exacts [hP' t ht, hask.2 x]
    | env he => exact henv _ _ he hP' hI'

end

/-! ### Replaying one interleaving -/

section
variable (answer : W → (r : Req) → r.Resp × W) (envStep : E → Sys W α → Option (Sys W α))

def stepAt (σ : Sys W α) : Nat ⊕ E → Option (Sys W α)
  | .inl i =>
    match σ.threads[i]? with
    | some (.call r k) => some ⟨(answer σ.world r).2, σ.threads.set i (k (answer σ.world r).1)⟩
    | _ => none
  | .inr e => envStep e σ

def replay (σ : Sys W α) : List (Nat ⊕ E) → Option (Sys W α)
  | [] => some σ
  | a :: as => (stepAt answer envStep σ a).bind (replay · as)

variable {Serve : W → (r : Req) → r.Resp → W → Prop} {Env : Sys W α → Sys W α → Prop}

/-- A replayed schedule reaches a state of the system it answers for. -/
theorem replay_reachable (hans : ∀ w r, Serve w r (answer w r).1 (answer w r).2)
    (henv : ∀ e σ σ', envStep e σ = some σ' → Env σ σ') :
    ∀ {σ₀ σ : Sys W α} {as : List (Nat ⊕ E)}, replay answer envStep σ₀ as = some σ →
      Reachable Serve Env σ₀ σ
  | _, _, [], h => by cases h; exact .refl
  | σ₀, σ, a :: as, h => by
    simp only [replay, Option.bind_eq_some] at h
    obtain ⟨σ₁, h₁, h⟩ := h
    refine Relation.ReflTransGen.head ?_ (replay_reachable hans henv h)
    cases a with
    | inl i =>
      simp only [stepAt] at h₁
      split at h₁ <;> cases h₁
      exact .thread ‹_› (hans _ _)
    | inr e => exact .env (henv _ _ _ h₁)

end

end SimplePush.Interleaving
