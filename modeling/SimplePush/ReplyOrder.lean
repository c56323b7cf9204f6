import SimplePush.Interleaving
import SimplePush.HandlerSpec

/-!
The hello reply and the notifications written on the same socket.

`Hello` sends HELLO, which hands the worker to the Router, before it writes its reply: it needs
the status HELLO returns. Its own `Flush` comes after the reply, so `Hello` never sends a
notification first. The Router may call a targeted `Flush` on the worker as soon as HELLO
returns, and such a `Flush` can write a notification before the reply.
-/

namespace SimplePush.ReplyOrder

open SimplePush.Json SimplePush.Messages SimplePush.Program SimplePush.Handlers
open SimplePush.HandlerSpec SimplePush.Interleaving
open SimplePush.Program.Prog (Runs Asks Always ask asks_bind asks_ask asks_ite Always.of_forall)

variable {valid : String → Bool} {w : Worker} {s : PushWS} {h : RequestHeader} {raw : List UInt8}

/-- The socket of one connection: the frames written on it, in order, and the UAID HELLO handed
to the Router with the worker. -/
structure Conn where
  out : List Frame
  handed : Option String

/-- What the world answers: a send or a successful write puts the frame on the socket, HELLO
hands the worker over, and every other request may get any answer. -/
inductive Serve : Conn → (r : Req) → r.Resp → Conn → Prop
  | send (c : Conn) (f : Frame) : Serve c (.send f) () ⟨c.out ++ [f], c.handed⟩
  | write (c : Conn) (m : String) : Serve c (.write m) none ⟨c.out ++ [.text m], c.handed⟩
  | writeFails (c : Conn) (m e : String) : Serve c (.write m) (some e) c
  | hello (c : Conn) (u : String) (chids : List Value) (pd : Option Value) (x : Int × String) :
      Serve c (.handleCommand (.hello u chids pd)) x ⟨c.out, some u⟩
  | other (c : Conn) (r : Req) (x : r.Resp) : (∀ f, r ≠ .send f) → (∀ m, r ≠ .write m) →
      (∀ u chids pd, r ≠ .handleCommand (.hello u chids pd)) → Serve c r x c

/-- One way the world answers: every call succeeds, `id.Generate` returns `g`, and the Store
has nothing pending. -/
def answer : Conn → (r : Req) → r.Resp × Conn
  | c, .send f => ((), ⟨c.out ++ [f], c.handed⟩)
  | c, .write m => (none, ⟨c.out ++ [.text m], c.handed⟩)
  | c, .handleCommand (.hello u _ _) => ((200, ""), ⟨c.out, some u⟩)
  | c, .handleCommand (.regis _) => ((200, ""), c)
  | c, .generate => (("g", none), c)
  | c, .clientExists _ => (false, c)
  | c, .now => (0, c)
  | c, .storeExists _ => (true, c)
  | c, .storeDropAll _ => ((), c)
  | c, .storeDrop _ _ => (none, c)
  | c, .storeRegister _ _ _ => (none, c)
  | c, .storeUnregister _ _ => (none, c)
  | c, .storeFetchAll _ _ => (.ok ([], []), c)
  | c, .increment _ => ((), c)
  | c, .timer _ _ => ((), c)

lemma answer_serves (c : Conn) (r : Req) : Serve c r (answer c r).1 (answer c r).2 := by
  cases r
  case send f => exact .send c f
  case write m => exact .write c m
  case handleCommand cmd =>
    cases cmd
    case hello u chids pd => exact .hello c u chids pd _
    case regis => exact .other _ _ _ (fun _ => nofun) (fun _ => nofun) (fun _ _ _ => nofun)
  all_goals exact .other _ _ _ (fun _ => nofun) (fun _ => nofun) (fun _ _ _ => nofun)

end SimplePush.ReplyOrder
