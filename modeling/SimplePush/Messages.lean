import SimplePush.Json

/-!
The messages of `worker.go`: the requests a worker decodes with `json.Unmarshal`, and the
replies it writes.

Decoding follows `encoding/json`: a text that does not scan is a `SyntaxError`; an object key
matches a field up to case (`equalFoldRight`); later keys overwrite earlier ones; unknown keys
are skipped; a value of the wrong type is an `UnmarshalTypeError`, which Go reports after
decoding the rest. Every caller here throws the partial result away on an error, so a decoder
returns either the value or the error.
-/

namespace SimplePush.Messages

open SimplePush.Json

/-- The errors `json.Unmarshal` returns here: `SyntaxError` and `UnmarshalTypeError`. -/
inductive DecodeError where
  | malformed
  | mistyped
  deriving DecidableEq, Repr

/-! ### Field matching and scalar targets -/

/-- A key's rune against a field name's rune, as `encoding/json` folds them. -/
def foldRune (k n : Char) : Bool :=
  k == n || (n.isAlpha && k.toLower == n.toLower) || (k == 'K' && n.toLower == 'k') ||
    (k == 'ſ' && n.toLower == 's')

def keyMatches (name key : String) : Bool :=
  key.length == name.length && (key.data.zip name.data).all fun p => foldRune p.1 p.2

def digitsVal (ds : List Char) : Nat := ds.foldl (fun n c => 10 * n + (c.toNat - 48)) 0

def numberParts (lit : String) : Nat × Int :=
  let cs := lit.data.dropWhile (· == '-')
  let int := cs.takeWhile Char.isDigit
  let rest := cs.dropWhile Char.isDigit
  let frac := if rest.head? = some '.' then rest.tail.takeWhile Char.isDigit else []
  let rest := if rest.head? = some '.' then rest.tail.dropWhile Char.isDigit else rest
  let exp : Int := match rest with
    | _ :: '-' :: ds => -(digitsVal ds : Int)
    | _ :: '+' :: ds => digitsVal ds
    | _ :: ds => digitsVal ds
    | [] => 0
  (digitsVal (int ++ frac), exp - frac.length)

/-- `strconv.ParseFloat(lit, 64)` fails with `ErrRange`: the literal rounds past the largest
float64, its magnitude being at least `2^1024 - 2^970`. -/
def overflowsFloat64 (lit : String) : Bool :=
  let (m, e) := numberParts lit
  if 0 ≤ e then decide (2 ^ 1024 - 2 ^ 970 ≤ m * 10 ^ e.toNat)
  else decide ((2 ^ 1024 - 2 ^ 970) * 10 ^ (-e).toNat ≤ m)

/-- `strconv.ParseUint(s, 10, 64)`: the value of a non-empty string of decimal digits, when it
is below 2^64. It decodes a number into a `uint64`. -/
def parseUint64 (s : String) : Option Nat :=
  if s.data ≠ [] ∧ s.data.all Char.isDigit ∧ digitsVal s.data < 2 ^ 64 then some (digitsVal s.data)
  else none

def mapInsert (k : String) (v : Value) (m : List (String × Value)) : List (String × Value) :=
  (k, v) :: m.filter (·.1 != k)

mutual
/-- The `interface{}` a value decodes to, or `none` when a number in it is out of float64
range. Objects become maps. A number keeps its literal (Go holds the float64 it rounds to). -/
def toAny : Value → Option Value
  | .number lit => if overflowsFloat64 lit then none else some (.number lit)
  | .array xs => (anyList xs).map .array
  | .object fs =>
    (anyFields fs).map fun fs => .object (fs.foldl (fun m p => mapInsert p.1 p.2 m) [])
  | v => some v

def anyList : List Value → Option (List Value)
  | [] => some []
  | x :: xs => do pure ((← toAny x) :: (← anyList xs))

def anyFields : List (String × Value) → Option (List (String × Value))
  | [] => some []
  | (k, v) :: fs => do pure ((k, ← toAny v) :: (← anyFields fs))
end

/-! ### Structs -/

/-- An object's fields decoded into a struct: each key goes to the field it names, through that
field's setter; `none` is a type error. -/
def decodeFields {T : Type} (fields : List (String × (Value → T → Option T))) :
    List (String × Value) → T → Option T
  | [], t => some t
  | (k, v) :: rest, t =>
    match fields.find? (fun f => keyMatches f.1 k) with
    | none => decodeFields fields rest t
    | some f => (f.2 v t).bind (decodeFields fields rest)

/-- `json.Unmarshal(raw, &t)` for a struct `t` that starts as `zero`. -/
def unmarshalStruct {T : Type} (fields : List (String × (Value → T → Option T))) (zero : T)
    (raw : List UInt8) : Except DecodeError T :=
  match parse raw with
  | none => .error .malformed
  | some (.object fs) => match decodeFields fields fs zero with
    | some t => .ok t
    | none => .error .mistyped
  | some .null => .ok zero
  | some _ => .error .mistyped

def intoString (v : Value) (s : String) : Option String :=
  match v with
  | .string s' => some s'
  | .null => some s
  | _ => none

structure RequestHeader where
  type : String
  deriving DecidableEq, Repr

def RequestHeader.unmarshal : List UInt8 → Except DecodeError RequestHeader :=
  unmarshalStruct [("messageType", fun v h => (intoString v h.type).map RequestHeader.mk)] ⟨""⟩

/-- `HelloRequest`. A `nil` pointer or slice is `none`; `PingData` is the raw value. -/
structure HelloRequest where
  deviceID : Option String
  channelIDs : Option (List Value)
  pingData : Option Value

def HelloRequest.unmarshal : List UInt8 → Except DecodeError HelloRequest :=
  unmarshalStruct
    [("uaid", fun v r => match v with
      | .string s => some { r with deviceID := some s }
      | .null => some { r with deviceID := none }
      | _ => none),
     ("channelIDs", fun v r => match v with
      | .array xs => (anyList xs).map fun xs => { r with channelIDs := some xs }
      | .null => some { r with channelIDs := none }
      | _ => none),
     ("connect", fun v r => some { r with pingData := some v })]
    ⟨none, none, none⟩

structure Update where
  channelID : String
  version : Nat
  deriving DecidableEq, Repr

def Update.decode : Value → Option Update
  | .object fs => decodeFields
      [("channelID", fun v u => (intoString v u.channelID).map fun c => { u with channelID := c }),
       ("version", fun v u => match v with
        | .number lit => (parseUint64 lit).map fun n => { u with version := n }
        | .null => some u
        | _ => none)] fs ⟨"", 0⟩
  | .null => some ⟨"", 0⟩
  | _ => none

structure ACKRequest where
  updates : List Update
  expired : List String

def ACKRequest.unmarshal : List UInt8 → Except DecodeError ACKRequest :=
  unmarshalStruct
    [("update", fun v r => match v with
      | .array xs => (xs.mapM Update.decode).map fun us => { r with updates := us }
      | .null => some { r with updates := [] }
      | _ => none),
     ("expired", fun v r => match v with
      | .array xs => (xs.mapM (intoString · "")).map fun es => { r with expired := es }
      | .null => some { r with expired := [] }
      | _ => none)]
    ⟨[], []⟩

/-- `RegisterRequest` and `UnregisterRequest`, which have the same one field. -/
structure RegisterRequest where
  channelID : String

def RegisterRequest.unmarshal : List UInt8 → Except DecodeError RegisterRequest :=
  unmarshalStruct [("channelID", fun v r => (intoString v r.channelID).map RegisterRequest.mk)] ⟨""⟩

/-- `json.Unmarshal(message, &reply)` into a `map[string]interface{}`: `none` is the `nil` map
that `null` leaves behind. -/
def unmarshalMap (raw : List UInt8) : Except DecodeError (Option (List (String × Value))) :=
  match parse raw with
  | none => .error .malformed
  | some .null => .ok none
  | some v@(.object _) => match toAny v with
    | some (.object m) => .ok (some m)
    | _ => .error .mistyped
  | some _ => .error .mistyped

/-! ### Replies -/

def num (n : Int) : Value := .number (toString n)

def registerReply (type uaid : String) (status : Int) (channelID endpoint : String) : Value :=
  .object [("messageType", .string type), ("uaid", .string uaid), ("status", num status),
    ("channelID", .string channelID), ("pushEndpoint", .string endpoint)]

def unregisterReply (type : String) (status : Int) (channelID : String) : Value :=
  .object [("messageType", .string type), ("status", num status), ("channelID", .string channelID)]

def Update.toValue (u : Update) : Value :=
  .object [("channelID", .string u.channelID), ("version", num u.version)]

/-- `FlushReply`; both lists are `omitempty`. -/
def flushReply (type : String) (updates : List Update) (expired : List String) : Value :=
  .object ([("messageType", .string type)] ++
    (if updates.isEmpty then [] else [("updates", .array (updates.map Update.toValue))]) ++
    (if expired.isEmpty then [] else [("expired", .array (expired.map .string))]))

def pingReply (type : String) (status : Int) : Value :=
  .object [("messageType", .string type), ("status", num status)]

/-- The error envelope of `handleError`: the client's map with `status` and `error` set. -/
def envelope (m : List (String × Value)) (status : Int) (error : String) : Value :=
  .object (mapInsert "error" (.string error) (mapInsert "status" (num status) m))

end SimplePush.Messages
