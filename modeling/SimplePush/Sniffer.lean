import SimplePush.Handlers

/-!
The receive loop of `sniffer`.

A pass begins at `if self.stopped { return }` and reads one frame, or a read error. `route`
is what the pass makes of it before any handler runs: `isPingBody`, then the header. The
pass then stops the worker, skips the frame, or dispatches it; an error is answered with
`handleError` and stops the worker. `Loop c ps e` is a run of the loop from `c` through the
passes `ps`, each with what it read and the answers it got, ending in `e`; `.error` is a panic,
which leaves the loop for `Run`'s `recover`.
-/

namespace SimplePush.Sniffer

open SimplePush.Json SimplePush.Messages SimplePush.Program SimplePush.Handlers
open SimplePush.Program.Prog (ask Runs)

/-- The counting loop of `isPingBody`: the numbers of `{` and `}`, or `none` at the first byte
that is neither a brace nor white space. -/
def countBraces : List UInt8 → Nat × Nat → Option (Nat × Nat)
  | [], c => some c
  | b :: bs, (l, r) =>
    if b = 123 then countBraces bs (l + 1, r)
    else if b = 125 then countBraces bs (l, r + 1)
    else if isSpace b then countBraces bs (l, r)
    else none

def isPingBody (raw : List UInt8) : Bool × Option Err :=
  if raw.length < 2 ∨ raw = [123, 125] then (true, none)
  else match countBraces raw (0, 0) with
    | none => (false, none)
    | some (l, r) => if l ≤ 1 ∧ l = r then (true, none) else (false, some .badPayload)

/-- What a pass makes of what it read, before any handler runs. -/
inductive Route where
  | readError
  | empty
  | badPayload
  | mistyped (raw : List UInt8)
  | malformed
  | dispatch (h : RequestHeader) (raw : List UInt8)

/-- The checks of a pass in their order in `sniffer`. -/
def route : Except String (List UInt8) → Route
  | .error _ => .readError
  | .ok raw =>
    if raw.length = 0 then .empty
    else match isPingBody raw with
      | (_, some _) => .badPayload
      | (true, none) => .dispatch ⟨"ping"⟩ raw
      | (false, none) =>
        match RequestHeader.unmarshal raw with
        | .error .mistyped => .mistyped raw
        | .error .malformed => .malformed
        | .ok h => .dispatch h raw

def stop (w : Worker) : Worker := { w with stopped := true }

@[simp] lemma stop_stopped (w : Worker) : (stop w).stopped = true := rfl
@[simp] lemma stop_state (w : Worker) : (stop w).state = w.state := rfl
@[simp] lemma stop_lastPing (w : Worker) : (stop w).lastPing = w.lastPing := rfl
@[simp] lemma stop_pingInt (w : Worker) : (stop w).pingInt = w.pingInt := rfl

/-- `self.handleError(sock, raw, e)` and then `self.stopped = true`, unless `handleError`
panics. -/
def failWith (toStatus : Err → Int × String) (raw : List UInt8) (e : Err) (w : Worker)
    (s : PushWS) : Prog (Except String (Worker × PushWS)) := do
  match ← handleError toStatus raw e with
  | .error p => pure (.error p)
  | .ok () => pure (.ok (stop w, s))

/-- One pass of the loop, after `websocket.Message.Receive` gave `r`. -/
def handleFrame (valid : String → Bool) (toStatus : Err → Int × String) (w : Worker)
    (s : PushWS) (r : Except String (List UInt8)) : Prog (Except String (Worker × PushWS)) :=
  match route r with
  | .readError | .badPayload | .malformed => pure (.ok (stop w, s))
  | .empty => pure (.ok (w, s))
  | .mistyped raw => failWith toStatus raw .unknownCommand w s
  | .dispatch h raw => do
    let (w, s, err) ← handle valid (command h.type) w s h raw
    match err with
    | none => pure (.ok (w, s))
    | some e => failWith toStatus raw e w s

section
variable (valid : String → Bool) (toStatus : Err → Int × String)

/-- A run of the receive loop: the passes it made, each with what it read and the answers it
got, and how it stands after them. -/
inductive Loop :
    Worker × PushWS → List (Except String (List UInt8) × List Event) →
      Except String (Worker × PushWS) → Prop
  | done (c : Worker × PushWS) : Loop c [] (.ok c)
  | next {c c' : Worker × PushWS} {r : Except String (List UInt8)} {tr : List Event}
      {ps : List (Except String (List UInt8) × List Event)} {e : Except String (Worker × PushWS)} :
      c.1.stopped = false → Runs (handleFrame valid toStatus c.1 c.2 r) tr (.ok c') →
        Loop c' ps e → Loop c ((r, tr) :: ps) e
  | panic {c : Worker × PushWS} {r : Except String (List UInt8)} {tr : List Event} {p : String} :
      c.1.stopped = false → Runs (handleFrame valid toStatus c.1 c.2 r) tr (.error p) →
        Loop c [(r, tr)] (.error p)

end

end SimplePush.Sniffer
