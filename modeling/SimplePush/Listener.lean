import Mathlib.Algebra.Group.Int
import Mathlib.Data.List.Basic

/-!
`LimitListener` (`net.go`) and the connections it returns, as a system of concurrent callers.

An `Accept` call is four atomic steps: the closed check, the count check, the underlying
accept, and `addConn` with the return (`setKeepAlive` touches only the new socket). A `Close`
call on a returned connection is one step at its `removeOnce.Do`: the underlying `Conn.Close`
touches nothing of the listener's, and `sync.Once` makes the first call's `removeConn` the only
one. The counter is the `int32` that `atomic.AddInt32` updates, so it wraps.
-/

namespace SimplePush.Listener

/-- Where an `Accept` call stands: between calls, before the count check, before the
underlying accept, or before `addConn`. -/
inductive Phase where
  | idle | counting | accepting | adding
  deriving DecidableEq, Repr

/-- `LimitListener`, with the callers of `Accept` and the connections it returned. `closed` is
`closeOnce.IsDone()`; `removed` has, for each connection `Accept` returned, whether its
`removeOnce` has run. -/
structure LimitListener where
  maxConns : Int
  conns : BitVec 32
  closed : Bool
  callers : List Phase
  removed : List Bool
  deriving DecidableEq, Repr

namespace LimitListener

def connCount (l : LimitListener) : Int := l.conns.toInt

/-- The connections `Accept` returned whose `Close` has not been called. -/
def live (l : LimitListener) : Nat := l.removed.count false

def init (maxConns : Int) (n : Nat) : LimitListener :=
  ⟨maxConns, 0, false, List.replicate n .idle, []⟩

def setPhase (l : LimitListener) (i : Nat) (p : Phase) : LimitListener :=
  { l with callers := l.callers.set i p }

end LimitListener

open LimitListener

/-- A step of the system: a step of caller `i` of `Accept`, one `Close` call on the `j`th
connection, or `LimitListener.Close`. -/
inductive Step where
  | closeCheck (i : Nat)
  | countCheck (i : Nat)
  | accept (i : Nat) (ok : Bool)
  | addConn (i : Nat)
  | closeConn (j : Nat)
  | close
  deriving DecidableEq, Repr

/-- One step, `none` when the caller is not at that point or the connection does not exist.
A caller that is refused or fails goes back to `idle`. -/
def step (l : LimitListener) : Step → Option LimitListener
  | .closeCheck i =>
    if l.callers[i]? = some .idle then some (l.setPhase i (if l.closed then .idle else .counting))
    else none
  | .countCheck i =>
    if l.callers[i]? = some .counting then
      some (l.setPhase i (if l.connCount ≥ l.maxConns then .idle else .accepting))
    else none
  | .accept i ok =>
    if l.callers[i]? = some .accepting then some (l.setPhase i (if ok then .adding else .idle))
    else none
  | .addConn i =>
    if l.callers[i]? = some .adding then
      some { l.setPhase i .idle with conns := l.conns + 1, removed := l.removed ++ [false] }
    else none
  | .closeConn j =>
    match l.removed[j]? with
    | some false => some { l with conns := l.conns - 1, removed := l.removed.set j true }
    | some true => some l
    | none => none
  | .close => some { l with closed := true }

/-- The states a listener with `MaxConns = maxConns` and `n` callers of `Accept` reaches. -/
inductive Reachable (maxConns : Int) (n : Nat) : LimitListener → Prop
  | init : Reachable maxConns n (init maxConns n)
  | step {l l' : LimitListener} {e : Step} :
      Reachable maxConns n l → step l e = some l' → Reachable maxConns n l'

def run (l : LimitListener) : List Step → Option LimitListener
  | [] => some l
  | e :: es => (step l e).bind (run · es)

lemma Reachable.run {maxConns : Int} {n : Nat} :
    ∀ {l l' : LimitListener} {es : List Step}, Reachable maxConns n l → run l es = some l' →
      Reachable maxConns n l'
  | _, _, [], hl, h => by cases h; exact hl
  | l, _, e :: es, hl, h => by
    simp only [SimplePush.Listener.run, Option.bind_eq_some] at h
    obtain ⟨l₁, h₁, h⟩ := h
    exact Reachable.run (hl.step h₁) h

end SimplePush.Listener
