import SimplePush.HandlerSpec

/-!
The worker's state and its stop flag over a run.

`NewWorker` starts a worker `WorkerActive` before any UAID is bound, although the package
declares `WorkerInactive` for that state and uses it nowhere. A pass that fails stops the
worker, except where `handleError` panics: a frame that decodes to `null` reaches the default
case of the dispatch, and `handleError` assigns into the `nil` map that `json.Unmarshal` left,
before the pass can set `stopped`.
-/

namespace SimplePush.Lifecycle

open SimplePush.Json SimplePush.Messages SimplePush.Program SimplePush.Handlers SimplePush.Sniffer
open SimplePush.HandlerSpec
open SimplePush.Program.Prog (Runs)

variable {valid : String → Bool} {toStatus : Err → Int × String}

/-! ### The state -/

/-- A fresh connection is a reachable state, active with no UAID. -/
theorem fresh_worker_active (app : Application) :
    Loop valid toStatus (newWorker app, ⟨""⟩) [] (.ok (newWorker app, ⟨""⟩)) ∧
      (newWorker app).state = .active ∧ (⟨""⟩ : PushWS).uaid = "" :=
  ⟨.done _, rfl, rfl⟩

/-! ### The stop flag -/

def nullFrame : List UInt8 := bytes "null"

/-- A `null` frame fails as an unknown command, and `handleError` panics on it: the run ends in
the panic with the worker never stopped. -/
theorem null_frame_panics (app : Application) :
    Loop valid toStatus (newWorker app, ⟨""⟩) [(.ok nullFrame, [])]
      (.error "assignment to entry in nil map") ∧ (newWorker app).stopped = false :=
  ⟨.panic rfl ((show handleFrame valid toStatus (newWorker app) ⟨""⟩ (.ok nullFrame) =
    .pure (.error "assignment to entry in nil map") from rfl) ▸ .pure _), rfl⟩

end SimplePush.Lifecycle
