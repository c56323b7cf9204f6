import SimplePush.HandlerSpec

/-!
The table of `Hello` beside the code.

`helloTable` is the specification's first-match table: an error, or the UAID the socket ends
with, and the UAIDs whose records `Store.DropAll` removes. `Agrees` says when a run of `hello`
follows a row of it. A run of the code follows the table whose Store lookup is made on the
socket's UAID: the last check of `Hello` asks `Exists(sock.Uaid)`, and the socket has no UAID on
every path that reaches it.
-/

namespace SimplePush.HelloTable

open SimplePush.Json SimplePush.Messages SimplePush.Program SimplePush.Handlers
open SimplePush.Program.Prog (exec exec_bind exec_ask exec_pure Asks)
open SimplePush.HandlerSpec (string_length_eq_zero)

/-! ### The table -/

def helloRows (valid clientExists storeExists : String → Bool) (generated : String)
    (maxChannels : Int) (B U : String) (chids : List Value) : Except Err String × List String :=
  if B ≠ "" then (if U = "" ∨ U = B then .ok B else .error .existingID, [])
  else if U = "" then (.ok generated, [])
  else if valid U = false then (.error .invalidID, [])
  else if clientExists U then (.ok generated, [])
  else if maxChannels < chids.length then (.ok generated, [U])
  else if storeExists U = false ∧ chids.isEmpty = false then (.ok generated, [])
  else (.ok U, [])

/-- The table of `Hello`, the first matching row deciding: `valid` is `id.Valid`,
`clientExists` the client table, `storeExists` the Store's `Exists`, and `generated` what
`id.Generate` returns. -/
def helloTable (valid clientExists storeExists : String → Bool) (generated : String)
    (maxChannels : Int) (B : String) (raw : List UInt8) : Except Err String × List String :=
  match HelloRequest.unmarshal raw with
  | .error _ => (.error .invalidParams, [])
  | .ok req =>
    match req.deviceID, req.channelIDs with
    | none, _ => (.error .invalidParams, [])
    | some _, none => (.error .noParams, [])
    | some U, some chids => helloRows valid clientExists storeExists generated maxChannels B U chids

/-! ### What a run shows -/

def helloArg : Req → Option String
  | .handleCommand (.hello u _ _) => some u
  | _ => none

def dropArg : Req → Option String
  | .storeDropAll u => some u
  | _ => none

def routerUaid (tr : List Event) : Option String := tr.findSome? fun ev => helloArg ev.req

def dropped (tr : List Event) : List String := tr.filterMap fun ev => dropArg ev.req

/-- A run ending in `x` after the requests `tr` follows a row of the table for a socket bound to
`B`: an error row returns its error at once and leaves the socket as it was; any other row hands
the Router its UAID, leaves the socket bound to it, and drops exactly the row's UAIDs. -/
def Agrees (B : String) : Except Err String × List String →
    List Event × (Worker × PushWS × Option Err) → Prop
  | (.error e, _), (tr, x) => tr = [] ∧ x.2.1.uaid = B ∧ x.2.2 = some e
  | (.ok u, drops), (tr, x) => routerUaid tr = some u ∧ x.2.1.uaid = u ∧ dropped tr = drops

/-! ### The runs of the code -/

section
variable {ans : (r : Req) → r.Resp} {w : Worker} {h : RequestHeader} {chids : List Value}
  {pd : Option Value}

lemma registerDevice_exec {B : String} {s₁ : PushWS} {fr : Bool} :
    Agrees B (.ok (if fr then (ans .generate).1 else s₁.uaid), [])
      (exec ans (registerDevice w s₁ h chids pd fr)) := by
  have hdrop : Asks (fun r => dropArg r = none) (registerDevice w s₁ h chids pd fr) := by
    simp only [registerDevice, resetUaid, Prog.asks_bind, Prog.asks_ask, Prog.always_ask,
      Prog.always_bind]
    refine ⟨Prog.asks_ite ⟨rfl, fun _ => trivial⟩ trivial, Prog.Always.of_forall fun _ =>
      ⟨rfl, fun _ => ⟨rfl, fun e => ⟨rfl, fun _ => ?_⟩⟩⟩⟩
    cases e
    · exact Prog.asks_bind.2 ⟨HandlerSpec.flush_asks_of rfl (fun _ _ => rfl) (fun _ => rfl)
        (fun _ => rfl) (fun _ _ => rfl), Prog.Always.of_forall fun _ => trivial⟩
    · trivial
  obtain ⟨hu, hr⟩ : (exec ans (resetUaid fr s₁)).2.uaid = (if fr then (ans .generate).1 else s₁.uaid) ∧
      routerUaid (exec ans (resetUaid fr s₁)).1 = none := by
    cases fr <;> exact ⟨rfl, rfl⟩
  rw [← hu]
  refine ⟨?_, ?_, List.filterMap_eq_nil_iff.2 fun ev hev => Prog.Asks.exec hdrop ev hev⟩
  · rw [registerDevice, exec_bind, routerUaid, List.findSome?_append, ← routerUaid, hr, Option.none_or]
    rfl
  · simp only [registerDevice, exec_bind, exec_ask]
    split <;> simp only [exec_bind, exec_pure]

lemma agrees_append {B u : String} {drops : List String} {tr₁ tr₂ : List Event}
    {x : Worker × PushWS × Option Err} (h₁ : routerUaid tr₁ = none) (hd : dropped tr₁ = drops)
    (h₂ : Agrees B (.ok u, []) (tr₂, x)) : Agrees B (.ok u, drops) (tr₁ ++ tr₂, x) := by
  obtain ⟨hu, hx, hd₂⟩ := h₂
  refine ⟨?_, hx, ?_⟩
  · rw [routerUaid, List.findSome?_append, ← routerUaid, h₁, Option.none_or, ← routerUaid, hu]
  · rw [dropped, List.filterMap_append, ← dropped, ← dropped, hd, hd₂, List.append_nil]

variable {valid : String → Bool} {s : PushWS} {U : String}
  {k : Except Err (Bool × PushWS) → Prog (Worker × PushWS × Option Err)}

lemma helloCheck_agrees (hk_err : ∀ e, k (.error e) = pure (w, s, some e))
    (hk_ok : ∀ fr s₁, k (.ok (fr, s₁)) = registerDevice w s₁ h chids pd fr) :
    Agrees s.uaid (helloRows valid (fun u => ans (.clientExists u))
        (fun _ => ans (.storeExists s.uaid)) (ans .generate).1 w.maxChannels s.uaid U chids)
      (exec ans (helloCheck valid w s U chids >>= k)) := by
  unfold helloRows helloCheck
  by_cases hB : s.uaid = ""
  · have hl : ¬0 < s.uaid.length := by simp [hB]
    simp only [hl, if_false, string_length_eq_zero]
    rw [if_neg (not_not.2 hB)]
    by_cases hU : U = ""
    · simp only [hU, if_true, exec_bind, exec_pure, hk_ok]
      exact agrees_append rfl rfl registerDevice_exec
    by_cases hv : valid U = false
    · simp [hU, hv, hk_err, hB, Agrees]
    by_cases hc : ans (.clientExists U) = true
    · simp only [hU, hv, hc, hk_ok, exec_bind, exec_ask, exec_pure, Bool.not_eq_true', Bool.true_eq_false, Bool.false_eq_true,
        ↓reduceIte]
      exact agrees_append rfl rfl registerDevice_exec
    by_cases hm : w.maxChannels < chids.length
    · simp only [hU, hv, hc, hm, hk_ok, exec_bind, exec_ask, exec_pure, Bool.not_eq_true', Bool.true_eq_false, Bool.false_eq_true,
        ↓reduceIte]
      exact agrees_append rfl rfl registerDevice_exec
    have hne : 0 < chids.length ↔ chids.isEmpty = false := by cases chids <;> simp
    simp only [hU, hv, hc, hm, hk_ok, exec_bind, exec_ask, exec_pure, Bool.not_eq_true',
      Bool.true_eq_false, Bool.false_eq_true, ↓reduceIte, hne]
    by_cases hs : ans (.storeExists s.uaid) = false ∧ chids.isEmpty = false
    · simp only [hs, and_self, ↓reduceIte, exec_pure, hk_ok]
      exact agrees_append rfl rfl registerDevice_exec
    · simp only [hs, ↓reduceIte, exec_pure, hk_ok]
      exact agrees_append rfl rfl registerDevice_exec
  · have hl : 0 < s.uaid.length := by simpa [Nat.pos_iff_ne_zero] using hB
    simp only [hB, ne_eq, not_false_eq_true, if_true, hl, string_length_eq_zero]
    by_cases hU : U = "" ∨ U = s.uaid
    · have hU' : U = "" ∨ s.uaid = U := hU.imp_right Eq.symm
      simp only [hU, hU', if_true, exec_bind, exec_pure, hk_ok]
      exact agrees_append rfl rfl registerDevice_exec
    · have hU' : ¬(U = "" ∨ s.uaid = U) := by rwa [eq_comm (a := s.uaid)]
      simp only [hU, hU', if_false, exec_bind, exec_pure, hk_err]
      exact ⟨rfl, rfl, rfl⟩
end

/-! ### Hello against the table -/

/-- **Hello follows the table of its own lookup**: whatever the process answers, a run of
`Hello` on a socket bound to `B` follows the table in which the Store is asked about `B`, not
about the suggested UAID. -/
theorem hello_follows_socket_lookup_table (valid : String → Bool) (w : Worker) (s : PushWS)
    (h : RequestHeader) (raw : List UInt8) (ans : (r : Req) → r.Resp) :
    Agrees s.uaid (helloTable valid (fun u => ans (.clientExists u))
        (fun _ => ans (.storeExists s.uaid)) (ans .generate).1 w.maxChannels s.uaid raw)
      (exec ans (hello valid w s h raw)) := by
  unfold hello helloTable
  cases HelloRequest.unmarshal raw with
  | error => exact ⟨rfl, rfl, rfl⟩
  | ok req =>
    obtain ⟨_ | U, _ | chids, pd⟩ := req
    · exact ⟨rfl, rfl, rfl⟩
    · exact ⟨rfl, rfl, rfl⟩
    · exact ⟨rfl, rfl, rfl⟩
    · exact helloCheck_agrees (fun _ => rfl) fun _ _ => rfl

/-- A process whose Store holds the records of `known` and in which no client is connected:
`id.Generate` returns `fresh`, and every other request succeeds. -/
def storeHolding (known fresh : String) : (r : Req) → r.Resp
  | .storeExists u => decide (u = known)
  | .clientExists _ => false
  | .generate => (fresh, none)
  | .now => 0
  | .send _ => ()
  | .write _ => none
  | .storeDropAll _ => ()
  | .storeDrop _ _ => none
  | .storeRegister _ _ _ => none
  | .storeUnregister _ _ => none
  | .storeFetchAll _ _ => .ok ([], [])
  | .handleCommand _ => (200, "")
  | .increment _ => ()
  | .timer _ _ => ()

def returningHello : List UInt8 :=
  bytes "\x7b\"messageType\":\"hello\",\"uaid\":\"U\",\"channelIDs\":[\"c\"]\x7d"

/-- A device the Store knows, suggesting its UAID with one channel on a fresh socket: the table
binds it again, the code hands the Router a generated UAID and binds that. -/
theorem hello_resets_known_device :
    helloTable (fun _ => true) (fun u => storeHolding "U" "g" (.clientExists u))
        (fun u => storeHolding "U" "g" (.storeExists u)) "g" 1 "" returningHello = (.ok "U", []) ∧
      routerUaid (exec (storeHolding "U" "g")
        (hello (fun _ => true) (newWorker ⟨0, 0, false, 1⟩) ⟨""⟩ ⟨"hello"⟩ returningHello)).1 =
        some "g" ∧
      (exec (storeHolding "U" "g")
        (hello (fun _ => true) (newWorker ⟨0, 0, false, 1⟩) ⟨""⟩ ⟨"hello"⟩ returningHello)).2.2.1 =
        ⟨"g"⟩ :=
  ⟨rfl, rfl, rfl⟩

end SimplePush.HelloTable
