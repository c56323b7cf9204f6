import SimplePush.Interleaving
import SimplePush.HandlerSpec

/-!
`Ack` against a Store that the Router updates at the same time.

The Store holds the pending update of each channel of the bound UAID: `Drop` removes a
channel's pending update, `FetchAll` returns them, and the Router may store a new version of a
channel at any point. `Ack` decodes each update's version but hands only the channel to
`Store.Drop`, so what it removes is the channel's update at the version the Store holds when the
`Drop` runs.
-/

namespace SimplePush.AckRace

open SimplePush.Json SimplePush.Messages SimplePush.Program SimplePush.Handlers
open SimplePush.Interleaving
open SimplePush.Program.Prog (Asks asks_bind asks_ask asks_ite Always.of_forall)

variable {w : Worker} {s : PushWS}

def DropsIn (L : List String) (r : Req) : Prop := ∀ u ch, r = .storeDrop u ch → ch ∈ L

lemma flush_asks {la v : Int} {ch : String} {L : List String} :
    Asks (DropsIn L) (flush w s la ch v) :=
  HandlerSpec.flush_asks_of (fun _ _ => nofun) (fun _ _ _ _ => nofun) (fun _ _ _ => nofun)
    (fun _ _ _ => nofun) (fun _ _ _ _ => nofun)

lemma dropEach_asks {uaid : String} {L : List String} :
    ∀ {chs : List String}, (∀ ch ∈ chs, ch ∈ L) → Asks (DropsIn L) (dropEach uaid chs)
  | [], _ => trivial
  | ch :: chs, h => by
    simp only [dropEach, asks_bind, asks_ask]
    refine ⟨fun _ _ he => ?_, Always.of_forall fun e => ?_⟩
    · cases he; exact h _ (List.mem_cons_self _ _)
    · cases e
      · exact dropEach_asks fun c hc => h c (List.mem_cons_of_mem _ hc)
      · trivial

def ackChannels (raw : List UInt8) : List String :=
  match ACKRequest.unmarshal raw with
  | .ok req => req.updates.map (·.channelID) ++ req.expired
  | .error _ => []

lemma ack_asks {raw : List UInt8} : Asks (DropsIn (ackChannels raw)) (Handlers.ack w s raw) := by
  unfold Handlers.ack
  refine asks_ite trivial ?_
  rcases hreq : ACKRequest.unmarshal raw with _ | req
  · trivial
  refine asks_ite trivial ?_
  simp only [asks_bind, asks_ask]
  refine ⟨fun _ _ => nofun, Always.of_forall fun _ => ⟨?_, Always.of_forall fun e => ?_⟩⟩
  · exact dropEach_asks fun ch hch => by simpa [ackChannels, hreq] using hch
  · cases e
    · simp only [asks_bind, flush_asks, true_and]
      exact Always.of_forall fun _ => trivial
    · trivial

/-! ### The Store and the Router -/

/-- The Store's records for the bound UAID: the pending update of each channel, and the
updates `Drop` removed, in order. -/
structure Store where
  pending : List Update
  dropped : List Update

/-- What the Store answers: `Drop` removes the channel's pending update (or fails and removes
nothing), `FetchAll` returns the pending updates (or fails), and every other request may get
any answer. -/
inductive Serve : Store → (r : Req) → r.Resp → Store → Prop
  | drop (st : Store) (u ch : String) : Serve st (.storeDrop u ch) none
      ⟨st.pending.filter (·.channelID != ch), st.dropped ++ st.pending.filter (·.channelID == ch)⟩
  | dropFails (st : Store) (u ch e : String) : Serve st (.storeDrop u ch) (some e) st
  | fetchAll (st : Store) (u : String) (t : Int) :
      Serve st (.storeFetchAll u t) (.ok (st.pending, [])) st
  | fetchFails (st : Store) (u : String) (t : Int) (e : String) :
      Serve st (.storeFetchAll u t) (.error e) st
  | other (st : Store) (r : Req) (x : r.Resp) : (∀ u ch, r ≠ .storeDrop u ch) →
      (∀ u t, r ≠ .storeFetchAll u t) → Serve st r x st

def store (up : Update) (σ : Sys Store Unit) : Sys Store Unit :=
  ⟨⟨up :: σ.world.pending.filter (·.channelID != up.channelID), σ.world.dropped⟩, σ.threads⟩

def RouterStores (σ σ' : Sys Store Unit) : Prop := ∃ up, σ' = store up σ

/-- One way the world answers: every Store call succeeds and every write goes through. -/
def answer : Store → (r : Req) → r.Resp × Store
  | st, .storeDrop _ ch =>
    (none, ⟨st.pending.filter (·.channelID != ch),
      st.dropped ++ st.pending.filter (·.channelID == ch)⟩)
  | st, .storeFetchAll _ _ => (.ok (st.pending, []), st)
  | st, .clientExists _ => (false, st)
  | st, .handleCommand _ => ((200, ""), st)
  | st, .now => (0, st)
  | st, .send _ => ((), st)
  | st, .write _ => (none, st)
  | st, .storeExists _ => (true, st)
  | st, .storeDropAll _ => ((), st)
  | st, .storeRegister _ _ _ => (none, st)
  | st, .storeUnregister _ _ => (none, st)
  | st, .generate => (("", none), st)
  | st, .increment _ => ((), st)
  | st, .timer _ _ => ((), st)

lemma answer_serves (st : Store) (r : Req) : Serve st r (answer st r).1 (answer st r).2 := by
  cases r
  case storeDrop u ch => exact .drop st u ch
  case storeFetchAll u t => exact .fetchAll st u t
  all_goals exact .other _ _ _ (fun _ _ => nofun) (fun _ _ => nofun)

/-! ### Every interleaving -/

def ackFrame : List UInt8 :=
  bytes "\x7b\"messageType\":\"ack\",\"update\":[\x7b\"channelID\":\"c\",\"version\":1\x7d]\x7d"

example : ACKRequest.unmarshal ackFrame = .ok ⟨[⟨"c", 1⟩], []⟩ := rfl

/-- A call of the worker that reaches the Store: `Ack` on a frame, or `Flush`. -/
inductive Call where
  | ack (w : Worker) (s : PushWS) (raw : List UInt8)
  | flush (w : Worker) (s : PushWS) (lastAccessed : Int) (channel : String) (version : Int)

def Call.prog : Call → Prog Unit
  | .ack w s raw => (fun _ => ()) <$> Handlers.ack w s raw
  | .flush w s la ch v => (fun _ => ()) <$> Handlers.flush w s la ch v

def Call.acked : Call → List String
  | .ack _ _ raw => ackChannels raw
  | .flush .. => []

lemma Call.prog_asks (c : Call) {L : List String} (hL : ∀ ch ∈ c.acked, ch ∈ L) :
    Asks (DropsIn L) c.prog := by
  cases c with
  | ack w s raw =>
    rw [Call.prog, Prog.asks_map]
    exact ack_asks.mono fun _ h u ch he => hL _ (h u ch he)
  | flush =>
    rw [Call.prog, Prog.asks_map]
    exact flush_asks

/-- **Ack by channel**: over any interleaving of the Router's stores with the worker's acks and
flushes, every update removed from the Store is of a channel that one of the acks listed. -/
theorem ack_drops_by_channel (calls : List Call) (pending : List Update) {σ : Sys Store Unit}
    (h : Reachable Serve RouterStores ⟨⟨pending, []⟩, calls.map Call.prog⟩ σ) :
    ∀ up ∈ σ.world.dropped, up.channelID ∈ calls.flatMap Call.acked := by
  refine (@Reachable.induct _ _ Serve RouterStores (DropsIn (calls.flatMap Call.acked))
    (fun st => ∀ up ∈ st.dropped, up.channelID ∈ calls.flatMap Call.acked) ?_ ?_ _ _ h
    (by simp) ?_).1
  · intro st r x st' hP hs hI
    cases hs with
    | drop u ch =>
      intro up hup
      rcases List.mem_append.1 hup with hup | hup
      · exact hI up hup
      · obtain ⟨-, hc⟩ := List.mem_filter.1 hup
        rw [beq_iff_eq.1 hc]
        exact hP u ch rfl
    | _ => exact hI
  · rintro σ σ' ⟨up, rfl⟩ hP hI
    exact ⟨hI, hP⟩
  · simp only [List.mem_map]
    rintro _ ⟨c, hc, rfl⟩
    exact c.prog_asks fun ch hch => List.mem_flatMap.2 ⟨c, hc, hch⟩

/-- An ack of `c` on a bound connection, run until it has called `Drop`: it removed version 1
of `c`, a channel it listed. -/
theorem ack_drops_by_channel_run :
    ∃ σ, Reachable Serve RouterStores
        ⟨⟨[⟨"c", 1⟩], []⟩, [Call.ack (newWorker ⟨0, 0, false, 0⟩) ⟨"u"⟩ ackFrame].map Call.prog⟩ σ ∧
      (⟨"c", 1⟩ : Update) ∈ σ.world.dropped ∧
      "c" ∈ [Call.ack (newWorker ⟨0, 0, false, 0⟩) ⟨"u"⟩ ackFrame].flatMap Call.acked := by
  obtain ⟨σ, hσ, hd⟩ : ∃ σ, replay answer (fun e : Empty => e.elim)
      ⟨⟨[⟨"c", 1⟩], []⟩, [Call.ack (newWorker ⟨0, 0, false, 0⟩) ⟨"u"⟩ ackFrame].map Call.prog⟩
      [.inl 0, .inl 0] = some σ ∧ σ.world.dropped = [⟨"c", 1⟩] := ⟨_, rfl, by decide⟩
  have hm : (⟨"c", 1⟩ : Update) ∈ σ.world.dropped := by simp [hd]
  have hr : Reachable Serve RouterStores _ σ :=
    replay_reachable answer _ answer_serves (fun e => e.elim) hσ
  exact ⟨σ, hr, hm, ack_drops_by_channel _ _ hr _ hm⟩

/-! ### A newer version dropped -/

def ackAfterStore : Sys Store Unit :=
  ⟨⟨[⟨"c", 1⟩], []⟩, [(fun _ => ()) <$> Handlers.ack (newWorker ⟨0, 0, false, 0⟩) ⟨"u"⟩ ackFrame]⟩

/-- The Router stores version 2 of `c` before the ack of version 1 runs, and the ack removes
version 2. -/
theorem ack_drops_newer :
    ∃ σ, Reachable Serve RouterStores ackAfterStore σ ∧ (⟨"c", 2⟩ : Update) ∈ σ.world.dropped := by
  obtain ⟨σ, hσ, hd⟩ : ∃ σ, replay answer (fun up σ => some (store up σ)) ackAfterStore
      [.inr ⟨"c", 2⟩, .inl 0, .inl 0] = some σ ∧ σ.world.dropped = [⟨"c", 2⟩] := ⟨_, rfl, by decide⟩
  exact ⟨σ, replay_reachable answer _ answer_serves
    (fun up _ _ h => ⟨up, (Option.some.inj h).symm⟩) hσ,
    by simp [hd]⟩

end SimplePush.AckRace
