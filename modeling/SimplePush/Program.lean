import SimplePush.Messages

/-!
What a worker asks of the world outside it, and programs made of such requests.

A handler of `worker.go` is modelled as a tree of requests: a write to the socket, the clock, a
call to the Store, the Router, the application's client table or `id.Generate`, a metric. Each
request has one branch per answer the world can give. A run follows one branch and records the
requests with their answers, so a statement about every run holds whatever the client, the
Store and the Router do. The interleaving models step the same trees one request at a time.
-/

namespace SimplePush.Program

open SimplePush.Json SimplePush.Messages

/-- A frame written to the socket: a text frame as it is, a binary frame (what
`websocket.Message.Send` makes of a `[]byte`), or a value `websocket.JSON.Send` encodes. -/
inductive Frame where
  | text (s : String)
  | binary (b : List UInt8)
  | json (v : Value)

/-- `PushCommand`, what a worker hands the Router with `HandleCommand`. -/
inductive PushCommand where
  | hello (uaid : String) (chids : List Value) (connect : Option Value)
  | regis (channelID : String)

/-- A request to the world outside the worker. -/
inductive Req where
  | now
  | send (f : Frame)
  | write (msg : String)
  | storeExists (uaid : String)
  | storeDropAll (uaid : String)
  | storeDrop (uaid chid : String)
  | storeRegister (uaid chid : String) (version : Int)
  | storeUnregister (uaid chid : String)
  | storeFetchAll (uaid : String) (since : Int)
  | clientExists (uaid : String)
  | generate
  | handleCommand (cmd : PushCommand)
  | increment (metric : String)
  | timer (metric : String) (d : Int)

/-- The answers a request can get. Errors are their messages; `HandleCommand` answers its
status and the `push.endpoint` string of its arguments (empty when there is none). -/
@[reducible] def Req.Resp : Req → Type
  | .now => Int
  | .send _ => Unit
  | .write _ => Option String
  | .storeExists _ => Bool
  | .storeDropAll _ => Unit
  | .storeDrop _ _ => Option String
  | .storeRegister _ _ _ => Option String
  | .storeUnregister _ _ => Option String
  | .storeFetchAll _ _ => Except String (List Update × List String)
  | .clientExists _ => Bool
  | .generate => String × Option String
  | .handleCommand _ => Int × String
  | .increment _ => Unit
  | .timer _ _ => Unit

/-- A request with the answer it got. -/
structure Event where
  req : Req
  resp : req.Resp

/-- A program: a result, or a request and what to do with each answer. -/
inductive Prog (α : Type) where
  | pure (a : α)
  | call (r : Req) (k : r.Resp → Prog α)

namespace Prog

variable {α β γ : Type}

def bind : Prog α → (α → Prog β) → Prog β
  | .pure a, f => f a
  | .call r k, f => .call r fun x => (k x).bind f

instance : Monad Prog where
  pure := .pure
  bind := bind

lemma bind_pure' (p : Prog α) : p.bind .pure = p := by
  induction p with
  | pure a => rfl
  | call r k ih => exact congrArg (Prog.call r) (funext ih)

lemma bind_assoc' (p : Prog α) (f : α → Prog β) (g : β → Prog γ) :
    (p.bind f).bind g = p.bind fun a => (f a).bind g := by
  induction p with
  | pure a => rfl
  | call r k ih => exact congrArg (Prog.call r) (funext ih)

instance : LawfulMonad Prog := LawfulMonad.mk' Prog bind_pure' (fun _ _ => rfl) bind_assoc'

/-- The request `r`, its answer as the result. -/
def ask (r : Req) : Prog r.Resp := .call r .pure

/-- `Runs p tr a`: answered as recorded in `tr`, `p` returns `a`. -/
inductive Runs : Prog α → List Event → α → Prop
  | pure (a : α) : Runs (.pure a) [] a
  | call {r : Req} {k : r.Resp → Prog α} {tr : List Event} {a : α} (x : r.Resp) :
      Runs (k x) tr a → Runs (.call r k) (⟨r, x⟩ :: tr) a

variable {p : Prog α} {f : α → Prog β} {tr : List Event} {a : α} {b : β}

@[simp] lemma runs_pure_iff {b' : α} : Runs (Pure.pure a : Prog α) tr b' ↔ tr = [] ∧ b' = a := by
  constructor
  · rintro ⟨⟩; exact ⟨rfl, rfl⟩
  · rintro ⟨rfl, rfl⟩; exact .pure _

@[simp] lemma runs_call_iff {r : Req} {k : r.Resp → Prog α} :
    Runs (.call r k) tr a ↔ ∃ x tr', tr = ⟨r, x⟩ :: tr' ∧ Runs (k x) tr' a := by
  constructor
  · rintro ⟨⟩; exact ⟨_, _, rfl, ‹_›⟩
  · rintro ⟨x, tr', rfl, h⟩; exact .call x h

@[simp] lemma runs_ask_iff {r : Req} {x : r.Resp} : Runs (ask r) tr x ↔ tr = [⟨r, x⟩] := by
  simp only [ask, runs_call_iff]
  constructor
  · rintro ⟨y, tr', rfl, h⟩
    cases h
    rfl
  · rintro rfl; exact ⟨x, [], rfl, .pure x⟩

@[simp] lemma runs_bind_iff :
    Runs (p >>= f) tr b ↔ ∃ tr₁ tr₂ a, tr = tr₁ ++ tr₂ ∧ Runs p tr₁ a ∧ Runs (f a) tr₂ b := by
  show Runs (p.bind f) tr b ↔ _
  induction p generalizing tr with
  | pure a => simp only [bind]; exact ⟨fun h => ⟨[], tr, a, rfl, .pure a, h⟩,
      by rintro ⟨_, _, _, rfl, ⟨⟩, h⟩; exact h⟩
  | call r k ih =>
    simp only [bind, runs_call_iff, ih]
    constructor
    · rintro ⟨x, tr', rfl, tr₁, tr₂, a, rfl, h₁, h₂⟩
      exact ⟨⟨r, x⟩ :: tr₁, tr₂, a, rfl, ⟨x, tr₁, rfl, h₁⟩, h₂⟩
    · rintro ⟨_, tr₂, a, rfl, ⟨x, tr₁, rfl, h₁⟩, h₂⟩
      exact ⟨x, tr₁ ++ tr₂, rfl, tr₁, tr₂, a, rfl, h₁, h₂⟩

@[simp] lemma runs_map_iff {g : α → β} :
    Runs (g <$> p) tr b ↔ ∃ a, Runs p tr a ∧ b = g a := by
  rw [← bind_pure_comp, runs_bind_iff]
  constructor
  · rintro ⟨tr₁, _, a, rfl, h, h'⟩
    obtain ⟨rfl, rfl⟩ := runs_pure_iff.mp h'
    exact ⟨a, by simpa using h, rfl⟩
  · rintro ⟨a, h, rfl⟩
    exact ⟨tr, [], a, by simp, h, runs_pure_iff.mpr ⟨rfl, rfl⟩⟩

/-- The run of `p` in a world that answers every request `r` with `ans r`. -/
def exec (ans : (r : Req) → r.Resp) : Prog α → List Event × α
  | .pure a => ([], a)
  | .call r k => Prod.map (⟨r, ans r⟩ :: ·) id (exec ans (k (ans r)))

section
variable {ans : (r : Req) → r.Resp}

@[simp] lemma exec_pure : exec ans (Pure.pure a : Prog α) = ([], a) := rfl

@[simp] lemma exec_ask {r : Req} : exec ans (ask r) = ([⟨r, ans r⟩], ans r) := rfl

@[simp] lemma exec_bind :
    exec ans (p >>= f) = ((exec ans p).1 ++ (exec ans (f (exec ans p).2)).1,
      (exec ans (f (exec ans p).2)).2) := by
  show exec ans (p.bind f) = _
  induction p with
  | pure a => rfl
  | call r k ih => simp only [bind, exec, ih, Prod.map, List.cons_append, id]

@[simp] lemma exec_map {g : α → β} : exec ans (g <$> p) = ((exec ans p).1, g (exec ans p).2) := by
  rw [← bind_pure_comp, exec_bind]; simp

/-- `exec` is one of the runs of `p`: what is proved of `exec` holds of a run of the program. -/
lemma runs_exec : Runs p (exec ans p).1 (exec ans p).2 := by
  induction p with
  | pure a => exact .pure a
  | call r k ih => exact .call (ans r) (ih (ans r))

end

/-- Every result of `p` satisfies `P`, whatever the answers. -/
def Always (P : α → Prop) : Prog α → Prop
  | .pure a => P a
  | .call _ k => ∀ x, Always P (k x)

variable {P : β → Prop}

@[simp] lemma always_pure : Always P (Pure.pure b) ↔ P b := Iff.rfl

@[simp] lemma always_bind : Always P (p >>= f) ↔ Always (fun a => Always P (f a)) p := by
  show Always P (p.bind f) ↔ _
  induction p with
  | pure a => rfl
  | call r k ih => exact forall_congr' ih

@[simp] lemma always_map {g : α → β} : Always P (g <$> p) ↔ Always (fun a => P (g a)) p := by
  rw [← bind_pure_comp, always_bind]; rfl

@[simp] lemma always_ask {r : Req} {Q : r.Resp → Prop} : Always Q (ask r) ↔ ∀ x, Q x := Iff.rfl

@[simp] lemma always_true : Always (fun _ => True) p := by
  induction p with
  | pure a => trivial
  | call r k ih => exact ih

lemma Always.mono {Q R : α → Prop} (h : Always Q p) (hQR : ∀ a, Q a → R a) : Always R p := by
  induction p with
  | pure a => exact hQR a h
  | call r k ih => exact fun x => ih x (h x)

lemma Always.of_forall {Q : α → Prop} (h : ∀ a, Q a) : Always Q p :=
  always_true.mono fun a _ => h a

lemma always_ite {Q : α → Prop} {c : Prop} [Decidable c] {p q : Prog α} (hp : c → Always Q p)
    (hq : ¬c → Always Q q) : Always Q (if c then p else q) := by
  by_cases hc : c
  · rw [if_pos hc]; exact hp hc
  · rw [if_neg hc]; exact hq hc

lemma Runs.always {Q : α → Prop} (h : Runs p tr a) (hp : Always Q p) : Q a := by
  induction h with
  | pure => exact hp
  | call x _ ih => exact ih (hp x)

/-- Every request `p` can make satisfies `P`, whatever the answers. -/
def Asks (P : Req → Prop) : Prog α → Prop
  | .pure _ => True
  | .call r k => P r ∧ ∀ x, Asks P (k x)

@[simp] lemma asks_pure {P : Req → Prop} : Asks P (Pure.pure a : Prog α) := trivial

@[simp] lemma asks_ask {P : Req → Prop} {r : Req} : Asks P (ask r) ↔ P r := by
  simp [ask, Asks]

@[simp] lemma asks_bind {P : Req → Prop} :
    Asks P (p >>= f) ↔ Asks P p ∧ Always (fun a => Asks P (f a)) p := by
  show Asks P (p.bind f) ↔ _
  induction p with
  | pure a => simp [bind, Asks, Always]
  | call r k ih => simp only [bind, Asks, Always, ih, forall_and, and_assoc]

@[simp] lemma asks_map {P : Req → Prop} {g : α → β} : Asks P (g <$> p) ↔ Asks P p := by
  rw [← bind_pure_comp, asks_bind]
  simp only [asks_pure, and_iff_left_iff_imp]
  exact fun _ => Always.of_forall fun _ => trivial

lemma asks_ite {P : Req → Prop} {c : Prop} [Decidable c] {p q : Prog α} (hp : Asks P p)
    (hq : Asks P q) : Asks P (if c then p else q) := by
  split <;> assumption

lemma Asks.mono {P Q : Req → Prop} (h : Asks P p) (hPQ : ∀ r, P r → Q r) : Asks Q p := by
  induction p with
  | pure a => trivial
  | call r k ih => exact ⟨hPQ r h.1, fun x => ih x (h.2 x)⟩

lemma Asks.exec {P : Req → Prop} {ans : (r : Req) → r.Resp} (h : Asks P p) :
    ∀ ev ∈ (exec ans p).1, P ev.req := by
  induction p with
  | pure a => nofun
  | call r k ih =>
    rintro ev (_ | ⟨_, hev⟩)
    exacts [h.1, ih _ (h.2 _) ev hev]

end Prog

end SimplePush.Program
