import SimplePush.HandlerSpec

/-!
The UAID a connection is bound to.

A pass changes the socket only when it dispatches a hello frame to an unbound socket, and the
UAID it binds is the frame's own, checked by `id.Valid`, or one `id.Generate` returned in the
pass. Over a run this gives the lifetime of the binding: a run from a bound socket keeps it, and
a run from an unbound one ends unbound or bound by one of its hello passes.
-/

namespace SimplePush.Binding

open SimplePush.Json SimplePush.Messages SimplePush.Program SimplePush.Handlers SimplePush.Sniffer
open SimplePush.HandlerSpec
open SimplePush.Program.Prog (Runs)

variable {valid : String → Bool} {toStatus : Err → Int × String}

/-- The pass of `ps` that bound the UAID `u`: a hello frame, and `u` its own or generated in
the pass. -/
def BoundBy (valid : String → Bool) (ps : List (Except String (List UInt8) × List Event))
    (u : String) : Prop :=
  ∃ p ∈ ps, ∃ h raw, route p.1 = .dispatch h raw ∧ command h.type = .hello ∧ Origin valid raw p.2 u

lemma loop_sock {c c' : Worker × PushWS} {ps : List (Except String (List UInt8) × List Event)}
    (hl : Loop valid toStatus c ps (.ok c')) :
    c'.2 = c.2 ∨ (c.2.uaid = "" ∧ BoundBy valid ps c'.2.uaid) := by
  generalize he : (Except.ok c' : Except String (Worker × PushWS)) = e at hl
  induction hl with
  | done => cases he; exact .inl rfl
  | panic => cases he
  | @next c c₁ r tr ps e _ hr _ ih =>
    have later : ∀ {u}, BoundBy valid ps u → BoundBy valid ((r, tr) :: ps) u :=
      fun ⟨p, hp, hb⟩ => ⟨p, List.mem_cons_of_mem _ hp, hb⟩
    rcases handleFrame_sock hr with hc₁ | ⟨hu, h, raw, hroute, hcmd, ho⟩ <;>
      rcases ih he with hc' | ⟨hu', hb⟩
    · exact .inl (hc'.trans hc₁)
    · exact .inr ⟨hc₁ ▸ hu', later hb⟩
    · exact .inr ⟨hu, (r, tr), List.mem_cons_self _ _, h, raw, hroute, hcmd, hc' ▸ ho⟩
    · exact .inr ⟨hu, later hb⟩

/-- **Binding**: a pass changes the UAID only from empty, by dispatching a hello frame, to that
frame's own UAID once `id.Valid` accepted it or to one `id.Generate` returned in the pass; a
run keeps a bound socket and binds an unbound one only in one of its hello passes; and `Hello`
on a bound socket keeps it, failing with `ErrExistingID` exactly when the request decodes with
both a `uaid` and a `channelIDs` field and suggests another non-empty UAID, with
`ErrInvalidParams` when it does not decode or has no `uaid`, and with `ErrNoParams` when it has
a `uaid` and no `channelIDs`. -/
theorem uaid_binds_once :
    (∀ (w : Worker) (s : PushWS) r tr (c' : Worker × PushWS),
      Runs (handleFrame valid toStatus w s r) tr (.ok c') →
        c'.2 = s ∨ (s.uaid = "" ∧ ∃ h raw, route r = .dispatch h raw ∧ command h.type = .hello ∧
          Origin valid raw tr c'.2.uaid)) ∧
    (∀ (c c' : Worker × PushWS) ps, Loop valid toStatus c ps (.ok c') →
      c'.2 = c.2 ∨ (c.2.uaid = "" ∧ BoundBy valid ps c'.2.uaid)) ∧
    (∀ (w : Worker) (s : PushWS) h raw tr (x : Worker × PushWS × Option Err), s.uaid ≠ "" →
      Runs (hello valid w s h raw) tr x →
        x.2.1 = s ∧ (x.2.2 = some .existingID ↔ ∃ req sug chids,
          HelloRequest.unmarshal raw = .ok req ∧ req.deviceID = some sug ∧
            req.channelIDs = some chids ∧ sug ≠ "" ∧ sug ≠ s.uaid) ∧
        (∀ e, HelloRequest.unmarshal raw = .error e → x.2.2 = some .invalidParams) ∧
        (∀ req, HelloRequest.unmarshal raw = .ok req → req.deviceID = none →
          x.2.2 = some .invalidParams) ∧
        (∀ req sug, HelloRequest.unmarshal raw = .ok req → req.deviceID = some sug →
          req.channelIDs = none → x.2.2 = some .noParams)) :=
  ⟨fun _ _ _ _ _ => handleFrame_sock, fun _ _ _ => loop_sock,
    fun _ _ _ _ _ _ hb hr => ⟨(hello_bound hb hr).1, (hello_bound hb hr).2, hello_params hr⟩⟩

def rebindFrame : List UInt8 := bytes "\x7b\"messageType\":\"hello\",\"uaid\":\"b\"\x7d"

/-- On a socket bound to `a`, a hello suggesting `b` without `channelIDs` fails with
`ErrNoParams`, not `ErrExistingID`. -/
theorem rebind_without_channels :
    Runs (hello (fun _ => true) (newWorker ⟨0, 0, false, 0⟩) ⟨"a"⟩ ⟨"hello"⟩ rebindFrame) []
      (newWorker ⟨0, 0, false, 0⟩, ⟨"a"⟩, some .noParams) :=
  .pure _

end SimplePush.Binding
