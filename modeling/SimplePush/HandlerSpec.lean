import SimplePush.Sniffer

/-!
What each handler does, stated once: the worker and the socket it leaves, the errors it returns,
and the requests of its runs where a result depends on them. The results about passes and runs
cite these lemmas and never unfold a handler.

`Always` lemmas hold of every result whatever the answers; `Runs` lemmas tie a result to the
requests of its run (the UAID `Hello` binds, the frames a pass writes).
-/

namespace SimplePush.HandlerSpec

open SimplePush.Json SimplePush.Messages SimplePush.Program SimplePush.Handlers SimplePush.Sniffer
open SimplePush.Program.Prog (Runs Always Asks ask always_bind always_ask always_pure always_ite
  asks_bind asks_ask asks_ite Always.of_forall)

variable {valid : String → Bool} {w : Worker} {s : PushWS} {h : RequestHeader} {raw : List UInt8}

@[simp] lemma string_length_eq_zero {u : String} : u.length = 0 ↔ u = "" := by
  cases u with | mk cs => cases cs <;> simp [String.length, String.ext_iff]

/-! ### Flush -/

/-- `Flush` stops the worker exactly when the socket has no UAID, and returns only the Store's
errors. -/
lemma flush_spec {la v : Int} {ch : String} :
    Always (fun x => x.1 = (if s.uaid = "" then stop w else w) ∧
        ∀ e, x.2 = some e → ∃ m, e = .other m)
      (flush w s la ch v) := by
  simp only [flush, always_bind, always_ask, always_pure]
  refine fun _ => (?_ : Always _ (flushBody w s la ch v)).mono fun _ hx _ _ => hx
  unfold flushBody
  refine always_ite (fun hu => ⟨(if_pos hu).symm, nofun⟩) fun hu => ?_
  have hw : (if s.uaid = "" then stop w else w) = w := if_neg hu
  refine always_ite (fun _ => ?_) fun _ _ _ => ⟨hw.symm, nofun⟩
  simp only [always_bind, always_ask]
  rintro (e | _)
  · exact ⟨hw.symm, fun _ he => ⟨e, (Option.some.inj he).symm⟩⟩
  · exact always_ite (fun _ _ => ⟨hw.symm, nofun⟩) fun _ => ⟨hw.symm, nofun⟩

lemma flush_asks_of {P : Req → Prop} {la v : Int} {ch : String} (hnow : P .now)
    (hfetch : ∀ u la, P (.storeFetchAll u la)) (hsend : ∀ f, P (.send f))
    (hinc : ∀ m, P (.increment m)) (htimer : ∀ m d, P (.timer m d)) :
    Asks P (flush w s la ch v) := by
  simp only [flush, asks_bind, asks_ask, always_ask, always_bind, Prog.asks_pure]
  refine ⟨hnow, fun _ => ⟨?_, Always.of_forall fun _ =>
    ⟨hnow, fun _ => ⟨htimer _ _, fun _ => trivial⟩⟩⟩⟩
  unfold flushBody
  refine asks_ite trivial (asks_ite ⟨hfetch _ _, ?_⟩ ⟨hinc _, fun _ => ⟨hsend _, fun _ => trivial⟩⟩)
  rintro (_ | _)
  exacts [trivial, asks_ite ⟨hsend _, fun _ => trivial⟩ trivial]

/-! ### The handlers other than `Hello` -/

lemma ack_frame : Always (fun x => x.1 = w ∧ x.2.1 = s) (Handlers.ack w s raw) := by
  unfold Handlers.ack
  refine always_ite (fun _ => ⟨rfl, rfl⟩) fun hu => ?_
  split
  · exact ⟨rfl, rfl⟩
  refine always_ite (fun _ => ⟨rfl, rfl⟩) fun _ => ?_
  simp only [always_bind, always_ask]
  refine fun _ => Always.of_forall fun e => ?_
  cases e
  · simp only [always_bind, always_pure]
    exact flush_spec.mono fun x hx => by simp [hx.1, hu]
  · exact ⟨rfl, rfl⟩

lemma register_frame : Always (fun x => x.1 = w ∧ x.2.1 = s) (register valid w s h raw) := by
  unfold register
  refine always_ite (fun _ => ⟨rfl, rfl⟩) fun _ => ?_
  split
  · exact ⟨rfl, rfl⟩
  refine always_ite (fun _ => ⟨rfl, rfl⟩) fun _ => ?_
  rintro (_ | _)
  exacts [fun ⟨_, _⟩ _ _ => ⟨rfl, rfl⟩, ⟨rfl, rfl⟩]

lemma unregister_frame : Always (fun x => x.1 = w ∧ x.2.1 = s) (unregister w s h raw) := by
  unfold unregister
  refine always_ite (fun _ => ⟨rfl, rfl⟩) fun _ => ?_
  split
  · exact ⟨rfl, rfl⟩
  · exact always_ite (fun _ => ⟨rfl, rfl⟩) fun _ _ _ _ => ⟨rfl, rfl⟩

lemma purge_frame : Always (fun x => x.1 = w ∧ x.2.1 = s) (purge w s) := by
  simp [purge]

lemma ping_runs {tr : List Event} {x : Worker × PushWS × Option Err} (hr : Runs (ping w s h) tr x) :
    ∃ t tr', tr = ⟨.now, t⟩ :: tr' ∧
      if 0 < w.pingInt ∧ w.lastPing.isSome ∧ sub t (w.lastPing.getD 0) < w.pingInt then
        x = (stop w, s, some .tooManyPings) ∧
          tr' = [⟨.increment "updates.client.too_many_pings", ()⟩]
      else x = ({ w with lastPing := some t }, s, none) ∧
        ∃ f, tr' = [⟨.send f, ()⟩, ⟨.increment "updates.client.ping", ()⟩] := by
  simp only [ping, Prog.runs_bind_iff, Prog.runs_ask_iff] at hr
  obtain ⟨_, tr', t, rfl, rfl, hr⟩ := hr
  refine ⟨t, tr', rfl, ?_⟩
  by_cases hp : 0 < w.pingInt ∧ w.lastPing.isSome ∧ sub t (w.lastPing.getD 0) < w.pingInt
  · rw [if_pos hp] at hr ⊢
    simp only [Prog.runs_bind_iff, Prog.runs_ask_iff, Prog.runs_pure_iff] at hr
    obtain ⟨_, _, _, rfl, rfl, rfl, rfl⟩ := hr
    exact ⟨rfl, rfl⟩
  · rw [if_neg hp] at hr ⊢
    -- the pong is `PingReply` or `{}`, as `PushLongPongs` says
    split at hr
    all_goals
      simp only [Prog.runs_bind_iff, Prog.runs_ask_iff, Prog.runs_pure_iff] at hr
      obtain ⟨_, _, _, rfl, rfl, _, _, _, rfl, rfl, rfl, rfl⟩ := hr
      exact ⟨rfl, _, rfl⟩

/-! ### Hello -/

lemma helloCheck_bound {sug : String} {chids : List Value} (hb : s.uaid ≠ "") :
    helloCheck valid w s sug chids =
      pure (if sug = "" ∨ s.uaid = sug then .ok (false, s) else .error .existingID) := by
  have : 0 < s.uaid.length := Nat.pos_of_ne_zero (by simpa using hb)
  simp only [helloCheck, this, if_true, string_length_eq_zero]
  split_ifs <;> rfl

lemma helloCheck_sock {sug : String} {chids : List Value} :
    Always (fun x => ∀ fr s₁, x = .ok (fr, s₁) → (fr = true → s.uaid = "") ∧
      (s₁ = s ∨ (s.uaid = "" ∧ s₁.uaid = sug ∧ valid sug = true ∧ fr = false)))
      (helloCheck valid w s sug chids) := by
  -- every branch but the last returns the socket as it was, or an error
  have keep : ∀ fr, (fr = true → s.uaid = "") → ∀ fr' s₁,
      (.ok (fr, s) : Except Err (Bool × PushWS)) = .ok (fr', s₁) → (fr' = true → s.uaid = "") ∧
        (s₁ = s ∨ (s.uaid = "" ∧ s₁.uaid = sug ∧ valid sug = true ∧ fr' = false)) := by
    rintro fr hfr _ _ ⟨⟩
    exact ⟨hfr, .inl rfl⟩
  unfold helloCheck
  refine always_ite (fun _ => always_ite (fun _ => keep false nofun) fun _ => nofun) fun hb => ?_
  have hu : s.uaid = "" := by simpa using hb
  refine always_ite (fun _ => keep true fun _ => hu) fun _ =>
    always_ite (fun _ => nofun) fun hv => ?_
  simp only [always_bind, always_ask]
  refine fun _ => always_ite (fun _ => keep true fun _ => hu) fun _ =>
    always_ite (fun _ _ => keep true fun _ => hu) fun _ _ => ?_
  refine always_ite (fun _ => keep true fun _ => hu) fun _ => ?_
  rintro _ _ ⟨⟩
  exact ⟨nofun, .inr ⟨hu, rfl, by simpa using hv, rfl⟩⟩

lemma hello_congr {valid' : String → Bool}
    (hv : ∀ req sug, HelloRequest.unmarshal raw = .ok req → req.deviceID = some sug →
      valid sug = valid' sug) :
    hello valid w s h raw = hello valid' w s h raw := by
  unfold hello
  split
  · rfl
  rename_i req hreq
  split
  · rfl
  · rfl
  rename_i sug chids hd _
  simp only [helloCheck, hv req sug hreq hd]

lemma registerDevice_spec {s₁ : PushWS} {chids : List Value} {pd : Option Value} {fr : Bool} :
    Always (fun x => (x.1 = { w with state := .active } ∨
        (x.1 = stop { w with state := .active } ∧ x.2.1.uaid = "")) ∧
        ∀ e, x.2.2 = some e → ∃ m, e = .other m)
      (registerDevice w s₁ h chids pd fr) := by
  unfold registerDevice
  simp only [always_bind, always_ask]
  refine Always.of_forall fun s₂ => ?_
  rintro ⟨_, _⟩ (_ | m) _
  · simp only [always_bind, always_pure]
    refine flush_spec.mono fun x hx => ⟨?_, hx.2⟩
    by_cases hu : s₂.uaid = ""
    · exact .inr ⟨by rw [hx.1, if_pos hu], hu⟩
    · exact .inl (by rw [hx.1, if_neg hu])
  · exact ⟨.inl rfl, fun _ he => ⟨m, (Option.some.inj he).symm⟩⟩

lemma registerDevice_sock {s₁ : PushWS} {chids : List Value} {pd : Option Value} {fr : Bool}
    {tr : List Event} {x : Worker × PushWS × Option Err}
    (hr : Runs (registerDevice w s₁ h chids pd fr) tr x) :
    (fr = false → x.2.1 = s₁) ∧
      (fr = true → ∃ err, (⟨.generate, (x.2.1.uaid, err)⟩ : Event) ∈ tr) := by
  rw [registerDevice, Prog.runs_bind_iff] at hr
  obtain ⟨tr₁, tr₂, s₂, rfl, h₁, h₂⟩ := hr
  have hs : x.2.1 = s₂ := by
    refine h₂.always (Q := fun x => x.2.1 = s₂) ?_
    simp only [always_bind, always_ask]
    rintro ⟨_, _⟩ (_ | _) _ <;> simp
  subst hs
  cases fr
  · simp only [resetUaid, Bool.false_eq_true, if_false, Prog.runs_pure_iff] at h₁
    simp [h₁.2]
  · simp only [resetUaid, if_true, Prog.runs_bind_iff, Prog.runs_ask_iff, Prog.runs_pure_iff] at h₁
    obtain ⟨_, _, ⟨u, err⟩, rfl, rfl, rfl, hu⟩ := h₁
    exact ⟨nofun, fun _ => ⟨err, List.mem_cons.2 (.inl (by rw [hu]))⟩⟩

/-- A run of `Hello`: a request without both fields is answered at once, and one with both runs
the checks on the suggested UAID, then returns their error or goes on to `registerDevice`. -/
lemma hello_runs {tr : List Event} {x : Worker × PushWS × Option Err}
    (hr : Runs (hello valid w s h raw) tr x) :
    (x.1 = w ∧ x.2.1 = s ∧ (x.2.2 = some .invalidParams ∨ x.2.2 = some .noParams) ∧ tr = [] ∧
      ∀ req sug chids, HelloRequest.unmarshal raw = .ok req → req.deviceID = some sug →
        req.channelIDs ≠ some chids) ∨
    ∃ req sug chids tr₁ tr₂ r, HelloRequest.unmarshal raw = .ok req ∧ req.deviceID = some sug ∧
      req.channelIDs = some chids ∧ tr = tr₁ ++ tr₂ ∧ Runs (helloCheck valid w s sug chids) tr₁ r ∧
      match r with
      | .error e => x = (w, s, some e) ∧ tr₂ = []
      | .ok (fr, s₁) => Runs (registerDevice w s₁ h chids req.pingData fr) tr₂ x := by
  rcases hreq : HelloRequest.unmarshal raw with _ | req
  · simp only [hello, hreq, Prog.runs_pure_iff] at hr
    obtain ⟨rfl, rfl⟩ := hr
    exact .inl ⟨rfl, rfl, .inl rfl, rfl, fun _ _ _ h => nomatch h⟩
  rcases hd : req.deviceID with _ | sug
  · simp only [hello, hreq, hd, Prog.runs_pure_iff] at hr
    obtain ⟨rfl, rfl⟩ := hr
    refine .inl ⟨rfl, rfl, .inl rfl, rfl, fun _ _ _ h h' => ?_⟩
    cases Except.ok.inj h
    cases hd.symm.trans h'
  rcases hc : req.channelIDs with _ | chids
  · simp only [hello, hreq, hd, hc, Prog.runs_pure_iff] at hr
    obtain ⟨rfl, rfl⟩ := hr
    refine .inl ⟨rfl, rfl, .inr rfl, rfl, fun _ _ _ h _ => ?_⟩
    cases Except.ok.inj h
    rw [hc]; nofun
  simp only [hello, hreq, hd, hc, Prog.runs_bind_iff] at hr
  obtain ⟨tr₁, tr₂, r, rfl, h₁, h₂⟩ := hr
  refine .inr ⟨req, sug, chids, tr₁, tr₂, r, rfl, hd, hc, rfl, h₁, ?_⟩
  rcases r with e | _
  · exact (Prog.runs_pure_iff.1 h₂).symm
  · exact h₂

/-- Where a UAID that a hello frame `raw` binds in a run with the requests `tr` comes from: the
frame's own `uaid`, which passed `id.Valid`, or an answer of `id.Generate` in the run. -/
def Origin (valid : String → Bool) (raw : List UInt8) (tr : List Event) (u : String) : Prop :=
  (∃ req, HelloRequest.unmarshal raw = .ok req ∧ req.deviceID = some u ∧ valid u = true) ∨
    ∃ err, (⟨.generate, (u, err)⟩ : Event) ∈ tr

lemma Origin.of_prefix {tr₁ tr : List Event} {u : String} (hp : tr₁ <+: tr)
    (h : Origin valid raw tr₁ u) : Origin valid raw tr u :=
  h.imp_right fun ⟨err, hm⟩ => ⟨err, hp.subset hm⟩

/-- `Hello` changes only an unbound socket, and binds it to the request's own `uaid`, which
passed `id.Valid`, or to what `id.Generate` returned in the run. -/
lemma hello_sock {tr : List Event} {x : Worker × PushWS × Option Err}
    (hr : Runs (hello valid w s h raw) tr x) :
    x.2.1 = s ∨ (s.uaid = "" ∧ Origin valid raw tr x.2.1.uaid) := by
  rcases hello_runs hr with ⟨-, hs, -⟩ | ⟨req, sug, chids, tr₁, tr₂, r, hreq, hd, -, rfl, h₁, h₂⟩
  · exact .inl hs
  rcases r with e | ⟨fr, s₁⟩
  · exact .inl (by rw [h₂.1])
  obtain ⟨hfr, hs₁⟩ := h₁.always helloCheck_sock fr s₁ rfl
  have hreg := registerDevice_sock h₂
  cases fr
  · rw [hreg.1 rfl]
    rcases hs₁ with rfl | ⟨hu, hsug, hv, -⟩
    · exact .inl rfl
    · exact .inr ⟨hu, .inl ⟨req, hreq, by rw [hd, hsug], by rw [hsug]; exact hv⟩⟩
  · obtain ⟨err, hm⟩ := hreg.2 rfl
    exact .inr ⟨hfr rfl, .inr ⟨err, List.mem_append_right _ hm⟩⟩

/-- On a bound socket `Hello` keeps the socket, and fails with `ErrExistingID` exactly when the
request has both fields and suggests another UAID. -/
lemma hello_bound (hb : s.uaid ≠ "") {tr : List Event} {x : Worker × PushWS × Option Err}
    (hr : Runs (hello valid w s h raw) tr x) :
    x.2.1 = s ∧ (x.2.2 = some .existingID ↔ ∃ req sug chids,
      HelloRequest.unmarshal raw = .ok req ∧ req.deviceID = some sug ∧
        req.channelIDs = some chids ∧ sug ≠ "" ∧ sug ≠ s.uaid) := by
  rcases hello_runs hr with ⟨-, hs, he, -, hno⟩ |
    ⟨req, sug, chids, tr₁, tr₂, r, hreq, hd, hc, rfl, h₁, h₂⟩
  · refine ⟨hs, iff_of_false (by rcases he with he | he <;> rw [he] <;> nofun) ?_⟩
    rintro ⟨req, sug, chids, hreq, hd, hc, -⟩
    exact hno req sug chids hreq hd hc
  rw [helloCheck_bound hb, Prog.runs_pure_iff] at h₁
  obtain ⟨rfl, rfl⟩ := h₁
  by_cases hk : sug = "" ∨ s.uaid = sug
  · rw [if_pos hk] at h₂
    have hreg := registerDevice_sock h₂
    refine ⟨hreg.1 rfl, ⟨fun he => ?_, ?_⟩⟩
    · obtain ⟨m, hm⟩ := (h₂.always registerDevice_spec).2 _ he
      cases hm
    · rintro ⟨_, sug', _, he, hd', -, hne, hne'⟩
      obtain rfl : req = _ := Except.ok.inj (hreq.symm.trans he)
      obtain rfl : sug = sug' := Option.some.inj (hd.symm.trans hd')
      rcases hk with hk | hk
      exacts [(hne hk).elim, (hne' hk.symm).elim]
  · rw [if_neg hk] at h₂
    rw [h₂.1]
    push_neg at hk
    exact ⟨rfl, iff_of_true rfl ⟨req, sug, chids, hreq, hd, hc, hk.1, Ne.symm hk.2⟩⟩

/-- The checks of `Hello` before the suggested UAID: a frame that does not decode, or decodes
with no `uaid`, fails with `ErrInvalidParams`; one with a `uaid` and no `channelIDs` fails with
`ErrNoParams`. -/
lemma hello_params {tr : List Event} {x : Worker × PushWS × Option Err}
    (hr : Runs (hello valid w s h raw) tr x) :
    (∀ e, HelloRequest.unmarshal raw = .error e → x.2.2 = some .invalidParams) ∧
    (∀ req, HelloRequest.unmarshal raw = .ok req → req.deviceID = none →
      x.2.2 = some .invalidParams) ∧
    (∀ req sug, HelloRequest.unmarshal raw = .ok req → req.deviceID = some sug →
      req.channelIDs = none → x.2.2 = some .noParams) := by
  refine ⟨fun e he => ?_, fun req hreq hd => ?_, fun req sug hreq hd hc => ?_⟩
  · simp only [hello, he, Prog.runs_pure_iff] at hr
    rw [hr.2]
  · simp only [hello, hreq, hd, Prog.runs_pure_iff] at hr
    rw [hr.2]
  · simp only [hello, hreq, hd, hc, Prog.runs_pure_iff] at hr
    rw [hr.2]

/-! ### The dispatch -/

lemma handle_sock {cmd : Command} {tr : List Event} {x : Worker × PushWS × Option Err}
    (hr : Runs (handle valid cmd w s h raw) tr x) :
    x.2.1 = s ∨ (cmd = .hello ∧ s.uaid = "" ∧ Origin valid raw tr x.2.1.uaid) := by
  cases cmd
  case hello => exact (hello_sock hr).imp_right fun h => ⟨rfl, h⟩
  case ping =>
    obtain ⟨t, tr', -, hx⟩ := ping_runs hr
    split_ifs at hx <;> simp [hx.1]
  case ack => exact .inl (hr.always ack_frame).2
  case register => exact .inl (hr.always register_frame).2
  case unregister => exact .inl (hr.always unregister_frame).2
  case purge => exact .inl (hr.always purge_frame).2
  case unknown => exact .inl (by rw [(Prog.runs_pure_iff.1 hr).2])

variable {toStatus : Err → Int × String}

/-- What `handleError` writes when it answers `e` on the frame `raw`: the envelope when the
frame decodes as an object, else nothing. -/
def envelopeFrames (toStatus : Err → Int × String) (raw : List UInt8) (e : Err) : List Event :=
  match unmarshalMap raw with
  | .ok (some m) => [⟨.send (.json (envelope m (toStatus e).1 (toStatus e).2)), ()⟩]
  | _ => []

lemma failWith_runs {e : Err} {tr : List Event} {x : Except String (Worker × PushWS)}
    (hr : Runs (failWith toStatus raw e w s) tr x) :
    x = .ok (stop w, s) ∧ tr = envelopeFrames toStatus raw e ∨
      unmarshalMap raw = .ok none ∧ x = .error "assignment to entry in nil map" ∧ tr = [] := by
  simp only [failWith, handleError, Prog.runs_bind_iff] at hr
  obtain ⟨tr₁, tr₂, y, rfl, h₁, h₂⟩ := hr
  unfold envelopeFrames
  split at h₁ <;> rename_i heq <;> simp only [heq]
  case h_3 =>
    simp only [Prog.runs_bind_iff, Prog.runs_ask_iff, Prog.runs_pure_iff] at h₁
    obtain ⟨_, _, _, rfl, rfl, rfl, rfl⟩ := h₁
    simp only [Prog.runs_pure_iff] at h₂
    simp [h₂]
  all_goals
    obtain ⟨rfl, rfl⟩ := Prog.runs_pure_iff.1 h₁
    simp only [Prog.runs_pure_iff] at h₂
    simp [h₂]

/-- A pass that does not panic either stops or skips without a handler, or runs the handler of
the frame's command on a prefix of its trace and keeps what the handler left, stopping the
worker when the handler returned an error. -/
lemma handleFrame_ok {r : Except String (List UInt8)} {tr : List Event} {c' : Worker × PushWS}
    (hr : Runs (handleFrame valid toStatus w s r) tr (.ok c')) :
    ((c' = (stop w, s) ∨ route r = .empty ∧ c' = (w, s) ∧ tr = []) ∧
      ∀ h raw, route r ≠ .dispatch h raw) ∨
    ∃ h raw tr₁ y, route r = .dispatch h raw ∧ tr₁ <+: tr ∧
      Runs (handle valid (command h.type) w s h raw) tr₁ y ∧
      (y.2.2 = none ∧ c' = (y.1, y.2.1) ∧ tr₁ = tr ∨ y.2.2.isSome ∧ c' = (stop y.1, y.2.1)) := by
  rcases hroute : route r with _ | _ | _ | raw | _ | ⟨h, raw⟩
  case dispatch =>
    simp only [handleFrame, hroute, Prog.runs_bind_iff] at hr
    obtain ⟨tr₁, tr₂, ⟨w', s', e⟩, rfl, h₁, h₂⟩ := hr
    refine .inr ⟨h, raw, tr₁, _, rfl, List.prefix_append _ _, h₁, ?_⟩
    rcases e with _ | e
    · obtain ⟨rfl, hc⟩ := Prog.runs_pure_iff.1 h₂
      simp [Except.ok.inj hc]
    · obtain ⟨hc, -⟩ | ⟨-, hc, -⟩ := failWith_runs h₂ <;> cases hc
      simp
  case mistyped =>
    simp only [handleFrame, hroute] at hr
    obtain ⟨hc, -⟩ | ⟨-, hc, -⟩ := failWith_runs hr <;> cases hc
    exact .inl ⟨.inl rfl, fun _ _ => nofun⟩
  all_goals
    simp only [handleFrame, hroute, Prog.runs_pure_iff, Except.ok.injEq] at hr
    simp [hr]

/-- A pass changes the socket only by dispatching a hello frame on an unbound socket, and binds
it to the frame's own UAID or to one `id.Generate` returned in the pass. -/
lemma handleFrame_sock {r : Except String (List UInt8)} {tr : List Event} {c' : Worker × PushWS}
    (hr : Runs (handleFrame valid toStatus w s r) tr (.ok c')) :
    c'.2 = s ∨ (s.uaid = "" ∧ ∃ h raw, route r = .dispatch h raw ∧ command h.type = .hello ∧
      Origin valid raw tr c'.2.uaid) := by
  rcases handleFrame_ok hr with ⟨hc | ⟨-, hc, -⟩, -⟩ | ⟨h, raw, tr₁, y, hroute, hp, h₁, hc⟩
  · exact .inl (by rw [hc])
  · exact .inl (by rw [hc])
  have hs : c'.2 = y.2.1 := by rcases hc with ⟨-, rfl, -⟩ | ⟨-, rfl⟩ <;> rfl
  rw [hs]
  exact (handle_sock h₁).imp_right fun ⟨hcmd, hu, ho⟩ =>
    ⟨hu, h, raw, hroute, hcmd, ho.of_prefix hp⟩

end SimplePush.HandlerSpec
