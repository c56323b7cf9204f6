import Mathlib.Data.Nat.Digits
import SimplePush.JsonRoundTrip
import SimplePush.Handlers

/-!
What the worker sends back: the replies of the handlers, and the error envelope.

A handler sends `RegisterReply`, `UnregisterReply`, `FlushReply` and `PingReply` with
`websocket.JSON.Send`. Their strings come from the client, the Store and the Router and may hold
any character; their numbers are Go integers, which `encoding/json` writes as `strconv` does,
in decimal with a minus sign and no leading zero. Those are JSON numbers, so by `JsonRoundTrip`
every reply is written as a JSON text that `json.Unmarshal` reads back as the reply.

`handleError` decodes the client's frame into a `map[string]interface{}`, sets `status` and
`error` in it and sends it. Decoding assigns the object's fields into the map in turn, so the
map holds each key once, with the value of the last field of that name.
-/

namespace SimplePush.Replies

open SimplePush.Json SimplePush.JsonText SimplePush.JsonAccept SimplePush.JsonRoundTrip
open SimplePush.Encode SimplePush.Messages SimplePush.Program SimplePush.Handlers
open SimplePush.Program.Prog (Asks ask asks_bind asks_ask asks_ite Always.of_forall)

/-! ### Decimal integers -/

lemma hexByte_toNat {j : Nat} (hj : j < 10) : (hexByte j).toNat = 48 + j := by
  interval_cases j <;> rfl

/-- `toDigitsCore` puts the decimal digits of `n` in front of `ds`, most significant first; the
first is `0` only for `0`, which has no other digit. -/
lemma toDigitsCore_digits (fuel n : Nat) (ds : List Char) (h : n < fuel) :
    ∃ k ks, Nat.toDigitsCore 10 fuel n ds = (k :: ks).map Nat.digitChar ++ ds ∧ k < 10 ∧
      (∀ j ∈ ks, j < 10) ∧ (0 < n → 0 < k) ∧ (n < 10 → ks = []) := by
  induction fuel generalizing n ds with
  | zero => omega
  | succ fuel ih =>
    rw [Nat.toDigitsCore]
    by_cases hn : n / 10 = 0
    · rw [if_pos hn]
      exact ⟨n % 10, [], rfl, Nat.mod_lt _ (by omega), nofun, fun _ => by omega, fun _ => rfl⟩
    · rw [if_neg hn]
      obtain ⟨k, ks, he, hk, hks, hpos, -⟩ := ih (n / 10) (Nat.digitChar (n % 10) :: ds) (by omega)
      refine ⟨k, ks ++ [n % 10], by rw [he]; simp, hk, ?_, fun _ => hpos (by omega),
        fun _ => by omega⟩
      exact List.forall_mem_append.2 ⟨hks, List.forall_mem_singleton.2 (Nat.mod_lt _ (by omega))⟩

lemma bytes_digits (l : List Nat) (h : ∀ j ∈ l, j < 10) :
    bytes ⟨l.map Nat.digitChar⟩ = l.map hexByte := by
  induction l with
  | nil => rfl
  | cons j l ih =>
    rw [List.forall_mem_cons] at h
    show String.utf8EncodeChar (hexDigit j) ++ bytes ⟨l.map Nat.digitChar⟩ = hexByte j :: l.map hexByte
    rw [(hexByte_spec (by omega)).1, ih h.2]
    rfl

/-- `toString` of a `Nat` is an `int` of the JSON grammar. -/
lemma intPart_toString (n : Nat) : IntPart (bytes (toString n)) := by
  obtain ⟨k, ks, he, hk, hks, hpos, hone⟩ := toDigitsCore_digits (n + 1) n [] (by omega)
  have hb : bytes (toString n) = (k :: ks).map hexByte := by
    show bytes ⟨Nat.toDigitsCore 10 (n + 1) n []⟩ = _
    rw [he, List.append_nil, bytes_digits _ (List.forall_mem_cons.2 ⟨hk, hks⟩)]
  rw [hb]
  rcases Nat.eq_zero_or_pos k with rfl | hk₀
  · rw [hone (by omega)]
    exact .zero
  · refine .digits ((le_iff_toNat_le _ _).2 ?_) ((le_iff_toNat_le _ _).2 ?_) fun x hx => ?_
    · rw [hexByte_toNat hk]
      show 49 ≤ 48 + k
      omega
    · rw [hexByte_toNat hk]
      show 48 + k ≤ 57
      omega
    · obtain ⟨j, hj, rfl⟩ := List.mem_map.1 hx
      have hj' := hks j hj
      have := hexByte_toNat hj'
      exact isDigit_iff.2 (by omega)

/-- **`encoding/json` writes a Go integer as a JSON number.** -/
lemma number_toString (n : Int) : Number (bytes (toString n)) := by
  cases n with
  | ofNat m =>
    have hn := Number.mk (m := []) (.inl rfl) (intPart_toString m) (.inl rfl) (.inl rfl)
    rwa [List.nil_append, List.append_nil, List.append_nil] at hn
  | negSucc m =>
    have hb : bytes (toString (Int.negSucc m)) = [0x2D] ++ bytes (toString (m + 1)) := by
      show bytes ("-" ++ toString (m + 1)) = _
      rw [bytes_append]
      rfl
    have hn := Number.mk (m := [0x2D]) (.inr rfl) (intPart_toString (m + 1)) (.inl rfl) (.inl rfl)
    rwa [List.append_nil, List.append_nil, ← hb] at hn

lemma num_valid (n : Int) : NumbersValid (num n) := .number (number_toString n)

/-! ### The replies -/

section
variable {type uaid channelID endpoint : String} {status : Int}

lemma registerReply_valid : NumbersValid (registerReply type uaid status channelID endpoint) :=
  .object (by simp [NumbersValid.string, num_valid])

lemma unregisterReply_valid : NumbersValid (unregisterReply type status channelID) :=
  .object (by simp [NumbersValid.string, num_valid])

lemma pingReply_valid : NumbersValid (pingReply type status) :=
  .object (by simp [NumbersValid.string, num_valid])

lemma flushReply_valid {updates : List Update} {expired : List String} :
    NumbersValid (flushReply type updates expired) := by
  have hu (u : Update) : NumbersValid u.toValue := .object (by simp [NumbersValid.string, num_valid])
  refine .object (List.forall_mem_append.2 ⟨List.forall_mem_append.2 ⟨?_, ?_⟩, ?_⟩)
  · simp [NumbersValid.string]
  · split
    · exact nofun
    · simpa using NumbersValid.array (by simpa using fun u _ => hu u)
  · split
    · exact nofun
    · simpa using NumbersValid.array (by simpa using fun _ _ => NumbersValid.string _)

end

/-! ### The handlers -/

/-- A request, unless it sends a JSON value with a number that is not a JSON number. -/
def SendsValid : Req → Prop
  | .send (.json v) => NumbersValid v
  | _ => True

variable {valid : String → Bool} {w : Worker} {s : PushWS} {h : RequestHeader} {raw : List UInt8}

lemma asks_bind_of {P : Req → Prop} {α β : Type} {p : Prog α} {f : α → Prog β} (hp : Asks P p)
    (hf : ∀ a, Asks P (f a)) : Asks P (p >>= f) :=
  asks_bind.2 ⟨hp, Always.of_forall hf⟩

lemma asks_ask_bind {P : Req → Prop} {β : Type} {r : Req} {f : r.Resp → Prog β} (hr : P r)
    (hf : ∀ x, Asks P (f x)) : Asks P (ask r >>= f) :=
  asks_bind_of (asks_ask.2 hr) hf

lemma flush_sends {la v : Int} {ch : String} : Asks SendsValid (flush w s la ch v) := by
  refine asks_ask_bind trivial fun _ => asks_bind_of ?_ fun _ =>
    asks_ask_bind trivial fun _ => asks_ask_bind trivial fun _ => trivial
  unfold flushBody
  refine asks_ite trivial (asks_ite (asks_ask_bind trivial fun r => ?_)
    (asks_ask_bind trivial fun _ => asks_ask_bind flushReply_valid fun _ => trivial))
  rcases r with _ | ⟨_, _⟩
  exacts [trivial, asks_ite (asks_ask_bind flushReply_valid fun _ => trivial) trivial]

lemma registerDevice_sends {chids : List Value} {pd : Option Value} {fr : Bool} :
    Asks SendsValid (registerDevice w s h chids pd fr) := by
  unfold registerDevice resetUaid
  refine asks_bind_of (asks_ite (asks_ask_bind trivial fun _ => trivial) trivial) fun _ =>
    asks_ask_bind trivial fun _ => asks_ask_bind trivial fun err => asks_ask_bind trivial fun _ => ?_
  cases err
  · exact asks_bind_of flush_sends fun _ => trivial
  · trivial

lemma hello_sends : Asks SendsValid (hello valid w s h raw) := by
  unfold hello
  split
  · trivial
  split
  · trivial
  · trivial
  refine asks_bind_of ?_ fun r => ?_
  · unfold helloCheck
    refine asks_ite (asks_ite trivial trivial)
      (asks_ite trivial (asks_ite trivial (asks_ask_bind trivial fun _ => ?_)))
    exact asks_ite trivial (asks_ite (asks_ask_bind trivial fun _ => trivial)
      (asks_ask_bind trivial fun _ => asks_ite trivial trivial))
  · rcases r with _ | ⟨_, _⟩
    · trivial
    · exact registerDevice_sends

lemma dropEach_sends (uaid : String) : ∀ chs, Asks SendsValid (dropEach uaid chs)
  | [] => trivial
  | _ :: chs => asks_ask_bind trivial fun e => by cases e; exacts [dropEach_sends uaid chs, trivial]

lemma ack_sends : Asks SendsValid (Handlers.ack w s raw) := by
  unfold Handlers.ack
  refine asks_ite trivial ?_
  split
  · trivial
  refine asks_ite trivial (asks_ask_bind trivial fun _ => asks_bind_of (dropEach_sends _ _) fun e => ?_)
  cases e
  · exact asks_bind_of flush_sends fun _ => trivial
  · trivial

lemma register_sends : Asks SendsValid (register valid w s h raw) := by
  unfold register
  refine asks_ite trivial ?_
  split
  · trivial
  refine asks_ite trivial (asks_ask_bind trivial fun e => ?_)
  cases e
  · exact asks_ask_bind trivial fun _ => asks_ask_bind registerReply_valid fun _ =>
      asks_ask_bind trivial fun _ => trivial
  · trivial

lemma unregister_sends : Asks SendsValid (unregister w s h raw) := by
  unfold unregister
  refine asks_ite trivial ?_
  split
  · trivial
  exact asks_ite trivial (asks_ask_bind trivial fun _ => asks_ask_bind unregisterReply_valid fun _ =>
    asks_ask_bind trivial fun _ => trivial)

lemma ping_sends : Asks SendsValid (ping w s h) := by
  unfold ping
  refine asks_ask_bind trivial fun _ => asks_ite (asks_ask_bind trivial fun _ => trivial) ?_
  exact asks_ite (asks_ask_bind pingReply_valid fun _ => asks_ask_bind trivial fun _ => trivial)
    (asks_ask_bind trivial fun _ => asks_ask_bind trivial fun _ => trivial)

lemma purge_sends : Asks SendsValid (purge w s) := by
  unfold purge
  exact asks_ask_bind trivial fun _ => trivial

/-- **Every reply a handler sends decodes back**: in every run of every command's handler,
whatever the frame and whatever the Store and the Router answer (their strings are Lean strings,
so valid UTF-8, where `json.Marshal` would replace invalid bytes), each value it sends with
`websocket.JSON.Send` is written by `json.Marshal` as a JSON text that `json.Unmarshal` reads
back as that value. -/
theorem handle_replies_decode (cmd : Command) :
    Asks (fun r => ∀ v, r = .send (.json v) →
        Text (bytes (encode v)) ∧ parse (bytes (encode v)) = some v)
      (handle valid cmd w s h raw) := by
  have hsends : Asks SendsValid (handle valid cmd w s h raw) := by
    cases cmd
    exacts [ping_sends, hello_sends, ack_sends, register_sends, unregister_sends,
      purge_sends, trivial]
  refine hsends.mono fun r hr v hv => ?_
  subst hv
  exact encode_text_parse hr

/-! ### The error envelope -/

/-- What a Go map decoded from the fields `fs` holds for `k`: the value of the last field named
`k`, since each field of the object is assigned into the map in turn. -/
def lastValue (k : String) : List (String × Value) → Option Value
  | [] => none
  | (k', v) :: fs => (lastValue k fs).or (if k' = k then some v else none)

/-- The map `handleError` sends for a client's object `fs`: each key once, `status` and `error`
as `ErrToStatus` gives them, and every other key with the value its last field in `fs` decodes
to. -/
structure Echoes (fs : List (String × Value)) (status : Int) (error : String)
    (m : List (String × Value)) : Prop where
  keys_nodup : (m.map Prod.fst).Nodup
  status_eq : m.lookup "status" = some (num status)
  error_eq : m.lookup "error" = some (.string error)
  other_eq : ∀ k, k ≠ "status" → k ≠ "error" → m.lookup k = (lastValue k fs).bind toAny

lemma lookup_filter_ne {k k' : String} (h : k' ≠ k) (m : List (String × Value)) :
    (m.filter (·.1 != k')).lookup k = m.lookup k := by
  induction m with
  | nil => rfl
  | cons p m ih =>
    obtain ⟨a, b⟩ := p
    by_cases hp : a = k'
    · have hk : (k == k') = false := by simpa using Ne.symm h
      simp [List.filter_cons, hp, List.lookup_cons, hk, ih]
    · simp [List.filter_cons, hp, List.lookup_cons, ih]

/-- A Go map assignment, looked up. -/
lemma lookup_mapInsert (k k' : String) (v : Value) (m : List (String × Value)) :
    (mapInsert k' v m).lookup k = if k' = k then some v else m.lookup k := by
  by_cases h : k' = k
  · simp [mapInsert, List.lookup_cons, h]
  · have hk : (k == k') = false := by simpa using Ne.symm h
    simp only [mapInsert, List.lookup_cons, hk, if_neg h, lookup_filter_ne h]

lemma nodup_mapInsert {k : String} {v : Value} {m : List (String × Value)}
    (h : (m.map Prod.fst).Nodup) : ((mapInsert k v m).map Prod.fst).Nodup := by
  refine List.nodup_cons.2 ⟨?_, h.sublist ((List.filter_sublist _).map _)⟩
  simp [List.mem_filter]

/-- Assigning the fields `fs` in turn into a map: the last field named `k` wins. -/
lemma lookup_foldl_mapInsert (k : String) (fs acc : List (String × Value)) :
    (fs.foldl (fun m p => mapInsert p.1 p.2 m) acc).lookup k = (lastValue k fs).or (acc.lookup k) := by
  induction fs generalizing acc with
  | nil => rfl
  | cons p fs ih =>
    rw [List.foldl_cons, ih, lookup_mapInsert, lastValue]
    cases lastValue k fs <;> by_cases hk : p.1 = k <;> simp [hk]

lemma nodup_foldl_mapInsert (fs : List (String × Value)) {acc : List (String × Value)}
    (h : (acc.map Prod.fst).Nodup) :
    ((fs.foldl (fun m p => mapInsert p.1 p.2 m) acc).map Prod.fst).Nodup := by
  induction fs generalizing acc with
  | nil => exact h
  | cons p fs ih => exact ih (nodup_mapInsert h)

lemma lastValue_mem {k : String} {fs : List (String × Value)} {x : Value}
    (h : lastValue k fs = some x) : (k, x) ∈ fs := by
  induction fs with
  | nil => cases h
  | cons p fs ih =>
    rw [lastValue] at h
    cases hl : lastValue k fs with
    | some y =>
      rw [hl] at h
      cases h
      exact List.mem_cons_of_mem _ (ih hl)
    | none =>
      rw [hl, Option.none_or] at h
      split at h
      · cases h
        subst ‹p.1 = k›
        exact List.mem_cons_self _ _
      · cases h

lemma toAny_of_anyFields {fs gs : List (String × Value)} (h : anyFields fs = some gs) :
    ∀ f ∈ fs, ∃ w, toAny f.2 = some w := by
  induction fs generalizing gs with
  | nil => nofun
  | cons p fs ih =>
    obtain ⟨k, v⟩ := p
    obtain ⟨w, hw, h⟩ := Option.bind_eq_some.1 h
    obtain ⟨gs', hgs, -⟩ := Option.bind_eq_some.1 h
    exact List.forall_mem_cons.2 ⟨⟨w, hw⟩, ih hgs⟩

/-- Decoding each field's value keeps the keys: the last field named `k` is still last. -/
lemma lastValue_anyFields {fs gs : List (String × Value)} (h : anyFields fs = some gs) (k : String) :
    lastValue k gs = (lastValue k fs).bind toAny := by
  induction fs generalizing gs with
  | nil => cases h; rfl
  | cons p fs ih =>
    obtain ⟨k', v⟩ := p
    obtain ⟨w, hw, h'⟩ := Option.bind_eq_some.1 h
    obtain ⟨gs', hgs, h'⟩ := Option.bind_eq_some.1 h'
    cases h'
    rw [lastValue, lastValue, ih hgs]
    cases hl : lastValue k fs with
    | some x =>
      obtain ⟨y, hy⟩ := toAny_of_anyFields hgs _ (lastValue_mem hl)
      simp [hy]
    | none => by_cases hk : k' = k <;> simp [hk, hw]

lemma unmarshalMap_some {raw : List UInt8} {m : List (String × Value)}
    (h : unmarshalMap raw = .ok (some m)) : ∃ fs gs, parse raw = some (.object fs) ∧
      anyFields fs = some gs ∧ m = gs.foldl (fun m p => mapInsert p.1 p.2 m) [] := by
  unfold unmarshalMap at h
  split at h
  case h_3 fs hp =>
    split at h
    · rename_i m' hm
      cases h
      obtain ⟨gs, hgs, hm'⟩ := Option.map_eq_some'.1 hm
      cases hm'
      exact ⟨fs, gs, hp, hgs, rfl⟩
    · cases h
  all_goals cases h

lemma echoes_envelope {fs gs : List (String × Value)} (hgs : anyFields fs = some gs) (status : Int)
    (error : String) :
    Echoes fs status error (mapInsert "error" (.string error)
      (mapInsert "status" (num status) (gs.foldl (fun m p => mapInsert p.1 p.2 m) []))) where
  keys_nodup := nodup_mapInsert (nodup_mapInsert (nodup_foldl_mapInsert gs List.nodup_nil))
  status_eq := by rw [lookup_mapInsert, if_neg (by decide), lookup_mapInsert, if_pos rfl]
  error_eq := by rw [lookup_mapInsert, if_pos rfl]
  other_eq k hs he := by
    rw [lookup_mapInsert, if_neg (Ne.symm he), lookup_mapInsert, if_neg (Ne.symm hs),
      lookup_foldl_mapInsert, lastValue_anyFields hgs, List.lookup_nil, Option.or_none]

/-- **The error envelope echoes the client's frame**: every frame `handleError` sends, for any
client frame and any error, is the client's JSON object as a Go map: each key once, `status`
and `error` set to what `ErrToStatus` gives, and every other key holding the decoded value of the
last field of that name in the frame. -/
theorem handleError_echoes (toStatus : Err → Int × String) (raw : List UInt8) (e : Err) :
    Asks (fun r => ∀ v, r = .send (.json v) → ∃ fs m, parse raw = some (.object fs) ∧
        v = .object m ∧ Echoes fs (toStatus e).1 (toStatus e).2 m)
      (handleError toStatus raw e) := by
  unfold handleError
  split
  · trivial
  · trivial
  · rename_i m hm
    obtain ⟨fs, gs, hp, hgs, rfl⟩ := unmarshalMap_some hm
    refine asks_ask_bind (fun v hv => ?_) fun _ => trivial
    cases hv
    exact ⟨fs, _, hp, rfl, echoes_envelope hgs _ _⟩

end SimplePush.Replies
