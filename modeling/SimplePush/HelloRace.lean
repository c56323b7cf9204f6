import SimplePush.Interleaving
import SimplePush.HandlerSpec

/-!
Hello handlers of several connections in one process.

The process's client table is the world: `ClientExists` reads it, and the Router's HELLO
command is what adds a UAID to it. `Hello` checks the table and sends HELLO in separate
requests, so two connections that suggest the same UAID can both find it absent and both bind
it.
-/

namespace SimplePush.HelloRace

open SimplePush.Json SimplePush.Messages SimplePush.Program SimplePush.Handlers
open SimplePush.HandlerSpec SimplePush.Interleaving

/-- What the rest of the process may answer a hello handler, with the client table `cs`:
`ClientExists` reads the table, HELLO adds the UAID to it, and every other request may get any
answer. -/
inductive Serve : List String → (r : Req) → r.Resp → List String → Prop
  | clientExists (cs : List String) (u : String) :
      Serve cs (.clientExists u) (decide (u ∈ cs)) cs
  | hello (cs : List String) (u : String) (chids : List Value) (pd : Option Value)
      (x : Int × String) : Serve cs (.handleCommand (.hello u chids pd)) x (u :: cs)
  | other (cs : List String) (r : Req) (x : r.Resp) : (∀ u, r ≠ .clientExists u) →
      (∀ u chids pd, r ≠ .handleCommand (.hello u chids pd)) → Serve cs r x cs

/-- One way the process answers: the Router accepts every command, the Store knows no UAID
and has nothing pending, and every write succeeds. -/
def answer : List String → (r : Req) → r.Resp × List String
  | cs, .clientExists u => (decide (u ∈ cs), cs)
  | cs, .handleCommand (.hello u _ _) => ((200, ""), u :: cs)
  | cs, .handleCommand (.regis _) => ((200, ""), cs)
  | cs, .now => (0, cs)
  | cs, .send _ => ((), cs)
  | cs, .write _ => (none, cs)
  | cs, .storeExists _ => (false, cs)
  | cs, .storeDropAll _ => ((), cs)
  | cs, .storeDrop _ _ => (none, cs)
  | cs, .storeRegister _ _ _ => (none, cs)
  | cs, .storeUnregister _ _ => (none, cs)
  | cs, .storeFetchAll _ _ => (.ok ([], []), cs)
  | cs, .generate => (("", none), cs)
  | cs, .increment _ => ((), cs)
  | cs, .timer _ _ => ((), cs)

lemma answer_serves (cs : List String) (r : Req) :
    Serve cs r (answer cs r).1 (answer cs r).2 := by
  cases r
  case clientExists u => exact .clientExists cs u
  case handleCommand c =>
    cases c
    case hello u chids pd => exact .hello cs u chids pd _
    case regis => exact .other _ _ _ (fun _ => nofun) (fun _ _ _ => nofun)
  all_goals exact .other _ _ _ (fun _ => nofun) (fun _ _ _ => nofun)

def uaidU : String := "5f4b6c2a1d8e4f3b9a7c6e5d4c3b2a19"

def helloU : List UInt8 :=
  bytes ("\x7b\"messageType\":\"hello\",\"uaid\":\"" ++ uaidU ++ "\",\"channelIDs\":[]\x7d")

/-- Two fresh connections, each handling `helloU`, and an empty client table. -/
def twoHellos (valid : String → Bool) : Sys (List String) (Worker × PushWS × Option Err) :=
  ⟨[], List.replicate 2 (hello valid (newWorker ⟨0, 0, false, 0⟩) ⟨""⟩ ⟨"hello"⟩ helloU)⟩

def result {α : Type} : Prog α → Option α
  | .pure a => some a
  | .call _ _ => none

/-- Both connections check the table before either sends HELLO, then each runs to the end. -/
def schedule : List (Nat ⊕ Empty) :=
  [.inl 0, .inl 1] ++ List.replicate 8 (.inl 0) ++ List.replicate 8 (.inl 1)

/-- Two connections whose hellos suggest the same UAID, which `id.Valid` accepts, can both
finish bound to it. -/
theorem hello_race {valid : String → Bool} (hU : valid uaidU = true) :
    ∃ σ, Reachable Serve (fun _ _ => False) (twoHellos valid) σ ∧
      σ.threads.map (fun t => (result t).map (·.2.1.uaid)) = [some uaidU, some uaidU] := by
  have hv : twoHellos valid = twoHellos fun _ => true := by
    rw [twoHellos, twoHellos, hello_congr]
    intro req sug hreq hd
    obtain rfl : req = ⟨some uaidU, some [], none⟩ := Except.ok.inj (hreq.symm.trans rfl)
    cases hd
    exact hU
  obtain ⟨σ, hσ, hbad⟩ : ∃ σ, replay answer (fun e => e.elim) (twoHellos fun _ => true)
      schedule = some σ ∧
      σ.threads.map (fun t => (result t).map (·.2.1.uaid)) = [some uaidU, some uaidU] :=
    ⟨_, rfl, by decide⟩
  exact ⟨σ, hv ▸ replay_reachable answer _ answer_serves (fun e => e.elim) hσ, hbad⟩

theorem hello_race_accept_all :
    ∃ σ, Reachable Serve (fun _ _ => False) (twoHellos fun _ => true) σ ∧
      σ.threads.map (fun t => (result t).map (·.2.1.uaid)) = [some uaidU, some uaidU] :=
  hello_race rfl

end SimplePush.HelloRace
