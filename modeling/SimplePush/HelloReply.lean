import SimplePush.Encode
import SimplePush.HelloTable

/-!
The hello reply `Hello` formats with `fmt.Sprintf`, against `json.Marshal` of the map the
commented-out `websocket.JSON.Send` would have sent.

The format string escapes nothing and the encoder escapes what it must, so the two agree exactly
when nothing needs escaping. The type needs none: a frame reaches `Hello` only when its type
lowers to `hello`, and only the letters of `hello` in either case lower to those. The UAID
needs none when it has none of the characters the encoder escapes; keeping out `"`, `\` and
control characters is not enough, as `encoding/json` also escapes `<`, `>`, `&`, U+2028 and
U+2029.
-/

namespace SimplePush.HelloReply

open SimplePush.Json SimplePush.Messages SimplePush.Program SimplePush.Handlers
open SimplePush.Encode SimplePush.HelloTable
open SimplePush.Program.Prog (exec)

/-! ### The dispatched type -/

lemma safe_of_lowerRune {c : Char} (h : lowerRune c ∈ "hello".data) : JsonSafe c := by
  change lowerRune c ∈ ['h', 'e', 'l', 'l', 'o'] at h
  simp only [lowerRune, Char.toLower] at h
  split_ifs at h with hK hI hA
  · exact absurd h (by decide)
  · exact absurd h (by decide)
  · refine ⟨by omega, fun hc => ?_⟩
    simp only [List.mem_cons, List.mem_singleton, List.not_mem_nil, or_false] at hc
    rcases hc with rfl | rfl | rfl | rfl | rfl | rfl | rfl <;> simp at hA
  · simp only [List.mem_cons, List.mem_singleton, List.not_mem_nil, or_false] at h
    rcases h with rfl | rfl | rfl | rfl | rfl <;> decide

/-- The type of every frame the dispatch hands to `Hello` is copied by the encoder. -/
lemma hello_type_safe {type : String} (h : command type = .hello) : ∀ c ∈ type.data, JsonSafe c := by
  have hl : toLower type = "hello" := by
    unfold command at h
    split at h <;> first | assumption | cases h
  intro c hc
  apply safe_of_lowerRune
  rw [← hl]
  exact List.mem_map_of_mem _ hc

/-! ### The reply -/

/-- **The hello reply is the encoder's**: for every type the dispatch hands to `Hello`, every
status and every UAID the encoder copies, the bytes `fmt.Sprintf` formats are those
`json.Marshal` writes for the map of the three. -/
theorem helloReply_eq_marshal (type : String) (status : Int) (uaid : String)
    (htype : command type = .hello) (huaid : ∀ c ∈ uaid.data, JsonSafe c) :
    helloReply type status uaid =
      marshalMap [("messageType", .string type), ("status", num status), ("uaid", .string uaid)] := by
  have hsorted : ([("messageType", Value.string type), ("status", num status), ("uaid", .string uaid)].insertionSort
      fun a b => ¬keyLt b.1.data a.1.data) = [("messageType", .string type), ("status", num status), ("uaid", .string uaid)] :=
    rfl
  rw [marshalMap, hsorted]
  simp only [encode, encodeFields, num, quote_of_safe huaid, quote_of_safe (hello_type_safe htype),
    quote_of_safe (s := "messageType") (by decide), quote_of_safe (s := "status") (by decide),
    quote_of_safe (s := "uaid") (by decide)]
  apply String.ext
  simp [helloReply, String.data_append]

/-- A type in mixed case and a UAID of hex digits. -/
theorem helloReply_eq_marshal_mixed_case :
    command "HeLLo" = .hello ∧ (∀ c ∈ "5f4b6c2a".data, JsonSafe c) ∧
      helloReply "HeLLo" 200 "5f4b6c2a" = marshalMap [("messageType", .string "HeLLo"),
        ("status", num 200), ("uaid", .string "5f4b6c2a")] :=
  ⟨rfl, by decide, helloReply_eq_marshal _ _ _ rfl (by decide)⟩

/-! ### A UAID the encoder escapes -/

def writeArg : Req → Option String
  | .write m => some m
  | _ => none

def written (tr : List Event) : List String := tr.filterMap fun ev => writeArg ev.req

def ltHello : List UInt8 :=
  bytes "\x7b\"messageType\":\"hello\",\"uaid\":\"<\",\"channelIDs\":[]\x7d"

/-- With an `id.Valid` that accepts `<` alone, a hello suggesting it binds it and writes it as it
is, where the encoder writes `\u003c`. -/
theorem hello_reply_not_marshal :
    written (exec (storeHolding "" "g")
        (hello (fun u => u = "<") (newWorker ⟨0, 0, false, 1⟩) ⟨""⟩ ⟨"hello"⟩ ltHello)).1 =
      ["\x7b\"messageType\":\"hello\",\"status\":200,\"uaid\":\"<\"\x7d"] ∧
    marshalMap [("messageType", .string "hello"), ("status", num 200), ("uaid", .string "<")] =
      "\x7b\"messageType\":\"hello\",\"status\":200,\"uaid\":\"\\u003c\"\x7d" :=
  ⟨rfl, rfl⟩

end SimplePush.HelloReply
