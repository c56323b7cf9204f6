import SimplePush.Program

/-!
A worker and its command handlers (`worker.go`).

Each handler is a program of requests that returns the worker and the socket as it leaves them
and the error it returns. Times are nanoseconds. Logging is left out: no handler reads what the
logger does. `id.Valid` and `ErrToStatus` live outside `worker.go` and are parameters.
-/

namespace SimplePush.Handlers

open SimplePush.Json SimplePush.Messages SimplePush.Program
open SimplePush.Program.Prog (ask)

/-- The errors a worker returns: those of `errors.go`, and those of its collaborators. -/
inductive Err where
  | unknownCommand | invalidCommand | invalidParams | noParams | invalidID | existingID
  | badPayload | tooManyPings
  | other (msg : String)
  deriving DecidableEq, Repr

inductive WorkerState where
  | inactive
  | active
  deriving DecidableEq, Repr

/-- The part of `Application` a worker reads; `maxChannels` is `app.Store().MaxChannels()`. -/
structure Application where
  clientMinPing : Int
  clientHelloTimeout : Int
  pushLongPongs : Bool
  maxChannels : Int

/-- `Worker`. `lastPing` is `none` while it is the zero `time.Time`. -/
structure Worker where
  app : Application
  state : WorkerState
  stopped : Bool
  maxChannels : Int
  lastPing : Option Int
  pingInt : Int
  helloTimeout : Int

structure PushWS where
  uaid : String
  deriving DecidableEq, Repr

def newWorker (app : Application) : Worker where
  app := app
  state := .active
  stopped := false
  maxChannels := app.maxChannels
  lastPing := none
  pingInt := app.clientMinPing
  helloTimeout := app.clientHelloTimeout

/-- `time.Time.Sub`: the difference as a `Duration`, saturated to the int64 range. -/
def sub (t u : Int) : Int := max (-2 ^ 63) (min (2 ^ 63 - 1) (t - u))

/-! ### Flush and the handlers -/

/-- The body of `Flush`, between the two clock reads of its deferred timer. -/
def flushBody (w : Worker) (s : PushWS) (lastAccessed : Int) (channel : String)
    (version : Int) : Prog (Worker × Option Err) :=
  if s.uaid = "" then pure ({ w with stopped := true }, none)
  else if channel = "" then do
    match ← ask (.storeFetchAll s.uaid lastAccessed) with
    | .error e => pure (w, some (.other e))
    | .ok (updates, expired) =>
      if 0 < updates.length ∨ 0 < expired.length then do
        let _ ← ask (.send (.json (flushReply "notification" updates expired)))
        pure (w, none)
      else pure (w, none)
  else do
    let _ ← ask (.increment "updates.sent")
    let _ ← ask (.send (.json (flushReply "notification" [⟨channel, (version % 2 ^ 64).toNat⟩] [])))
    pure (w, none)

def flush (w : Worker) (s : PushWS) (lastAccessed : Int) (channel : String) (version : Int) :
    Prog (Worker × Option Err) := do
  let timer ← ask .now
  let r ← flushBody w s lastAccessed channel version
  let now ← ask .now
  let _ ← ask (.timer "client.flush" (sub now timer))
  pure r

def helloReply (type : String) (status : Int) (uaid : String) : String :=
  "\x7b\"messageType\":\"" ++ type ++ "\",\"status\":" ++ toString status ++ ",\"uaid\":\"" ++
    uaid ++ "\"\x7d"

def resetUaid (forceReset : Bool) (s : PushWS) : Prog PushWS :=
  if forceReset then do
    let (uaid, _) ← ask .generate
    pure { s with uaid := uaid }
  else pure s

/-- `registerDevice:` of `Hello`, reached with the socket and `forceReset` as the checks left
them. -/
def registerDevice (w : Worker) (s : PushWS) (h : RequestHeader) (chids : List Value)
    (pingData : Option Value) (forceReset : Bool) : Prog (Worker × PushWS × Option Err) := do
  let s ← resetUaid forceReset s
  let (status, _) ← ask (.handleCommand (.hello s.uaid chids pingData))
  let err ← ask (.write (helloReply h.type status s.uaid))
  let _ ← ask (.increment "updates.client.hello")
  let w := { w with state := .active }
  match err with
  | none => do
    let (w, err) ← flush w s 0 "" 0
    pure (w, s, err)
  | some e => pure (w, s, some (.other e))

/-- The checks of `Hello` once the request has a `uaid` and `channelIDs`: an error, or the
jump to `registerDevice` with `forceReset` and the socket. -/
def helloCheck (valid : String → Bool) (w : Worker) (s : PushWS) (suggested : String)
    (chids : List Value) : Prog (Except Err (Bool × PushWS)) :=
  if 0 < s.uaid.length then
    if suggested.length = 0 ∨ s.uaid = suggested then pure (.ok (false, s))
    else pure (.error .existingID)
  else if suggested.length = 0 then pure (.ok (true, s))
  else if !valid suggested then pure (.error .invalidID)
  else do
    if ← ask (.clientExists suggested) then pure (.ok (true, s))
    else if w.maxChannels < chids.length then do
      let _ ← ask (.storeDropAll suggested)
      pure (.ok (true, s))
    else do
      let known ← ask (.storeExists s.uaid)
      if !known ∧ 0 < chids.length then pure (.ok (true, s))
      else pure (.ok (false, { s with uaid := suggested }))

def hello (valid : String → Bool) (w : Worker) (s : PushWS) (h : RequestHeader)
    (raw : List UInt8) : Prog (Worker × PushWS × Option Err) :=
  match HelloRequest.unmarshal raw with
  | .error _ => pure (w, s, some .invalidParams)
  | .ok req =>
    match req.deviceID, req.channelIDs with
    | none, _ => pure (w, s, some .invalidParams)
    | some _, none => pure (w, s, some .noParams)
    | some suggested, some chids => do
      match ← helloCheck valid w s suggested chids with
      | .error e => pure (w, s, some e)
      | .ok (forceReset, s) => registerDevice w s h chids req.pingData forceReset

def dropEach (uaid : String) : List String → Prog (Option Err)
  | [] => pure none
  | ch :: chs => do
    match ← ask (.storeDrop uaid ch) with
    | some e => pure (some (.other e))
    | none => dropEach uaid chs

def ack (w : Worker) (s : PushWS) (raw : List UInt8) : Prog (Worker × PushWS × Option Err) :=
  if s.uaid = "" then pure (w, s, some .invalidCommand)
  else match ACKRequest.unmarshal raw with
    | .error _ => pure (w, s, some .invalidParams)
    | .ok req =>
      if req.updates.length = 0 then pure (w, s, some .noParams)
      else do
        let _ ← ask (.increment "updates.client.ack")
        match ← dropEach s.uaid (req.updates.map (·.channelID) ++ req.expired) with
        | some e => pure (w, s, some e)
        | none => do
          let (w, err) ← flush w s 0 "" 0
          pure (w, s, err)

def register (valid : String → Bool) (w : Worker) (s : PushWS) (h : RequestHeader)
    (raw : List UInt8) : Prog (Worker × PushWS × Option Err) :=
  if s.uaid = "" then pure (w, s, some .invalidCommand)
  else match RegisterRequest.unmarshal raw with
    | .error _ => pure (w, s, some .invalidParams)
    | .ok req =>
      if !valid req.channelID then pure (w, s, some .invalidParams)
      else do
        match ← ask (.storeRegister s.uaid req.channelID 0) with
        | some e => pure (w, s, some (.other e))
        | none => do
          let (_, endpoint) ← ask (.handleCommand (.regis req.channelID))
          let _ ← ask (.send (.json (registerReply h.type s.uaid 200 req.channelID endpoint)))
          let _ ← ask (.increment "updates.client.register")
          pure (w, s, none)

/-- `Unregister`: a Store error is only logged. -/
def unregister (w : Worker) (s : PushWS) (h : RequestHeader) (raw : List UInt8) :
    Prog (Worker × PushWS × Option Err) :=
  if s.uaid = "" then pure (w, s, some .invalidCommand)
  else match RegisterRequest.unmarshal raw with
    | .error _ => pure (w, s, some .invalidParams)
    | .ok req =>
      if req.channelID.length = 0 then pure (w, s, some .noParams)
      else do
        let _ ← ask (.storeUnregister s.uaid req.channelID)
        let _ ← ask (.send (.json (unregisterReply h.type 200 req.channelID)))
        let _ ← ask (.increment "updates.client.unregister")
        pure (w, s, none)

def ping (w : Worker) (s : PushWS) (h : RequestHeader) : Prog (Worker × PushWS × Option Err) := do
  let now ← ask .now
  if 0 < w.pingInt ∧ w.lastPing.isSome ∧ sub now (w.lastPing.getD 0) < w.pingInt then do
    let _ ← ask (.increment "updates.client.too_many_pings")
    pure ({ w with stopped := true }, s, some .tooManyPings)
  else do
    let w := { w with lastPing := some now }
    let _ ← if w.app.pushLongPongs then ask (.send (.json (pingReply h.type 200)))
      else ask (.send (.binary (bytes "\x7b\x7d")))
    let _ ← ask (.increment "updates.client.ping")
    pure (w, s, none)

def purge (w : Worker) (s : PushWS) : Prog (Worker × PushWS × Option Err) := do
  let _ ← ask (.send (.binary (bytes "\x7b\x7d")))
  pure (w, s, none)

/-! ### The error envelope and the dispatch -/

/-- `handleError`. `.error` is the panic of assigning into the `nil` map that a `null` frame
decodes to. -/
def handleError (toStatus : Err → Int × String) (raw : List UInt8) (e : Err) :
    Prog (Except String Unit) :=
  match unmarshalMap raw with
  | .error _ => pure (.ok ())
  | .ok none => pure (.error "assignment to entry in nil map")
  | .ok (some m) => do
    let _ ← ask (.send (.json (envelope m (toStatus e).1 (toStatus e).2)))
    pure (.ok ())

/-- `unicode.ToLower` as far as a comparison with an ASCII name can tell: ASCII capitals, and
the two other runes that lower to ASCII letters (U+212A to `k`, U+0130 to `i`). Every other
rune is kept; Go lowers it to a rune outside ASCII. -/
def lowerRune (c : Char) : Char :=
  if c = 'K' then 'k' else if c = 'İ' then 'i' else c.toLower

def toLower (s : String) : String := ⟨s.data.map lowerRune⟩

inductive Command where
  | ping | hello | ack | register | unregister | purge | unknown
  deriving DecidableEq, Repr

def command (type : String) : Command :=
  match toLower type with
  | "ping" => .ping
  | "hello" => .hello
  | "ack" => .ack
  | "register" => .register
  | "unregister" => .unregister
  | "purge" => .purge
  | _ => .unknown

/-- The handler of a command; the `default` case is `ErrUnknownCommand`. -/
def handle (valid : String → Bool) (cmd : Command) (w : Worker) (s : PushWS)
    (h : RequestHeader) (raw : List UInt8) : Prog (Worker × PushWS × Option Err) :=
  match cmd with
  | .ping => ping w s h
  | .hello => hello valid w s h raw
  | .ack => ack w s raw
  | .register => register valid w s h raw
  | .unregister => unregister w s h raw
  | .purge => purge w s
  | .unknown => pure (w, s, some .unknownCommand)

end SimplePush.Handlers
