import SimplePush.HandlerSpec

/-!
Commands on a connection that has no UAID yet.

`Ack`, `Register` and `Unregister` begin with `if sock.Uaid == ""`, so on an unbound socket they
return `ErrInvalidCommand` before any request, and the pass answers with the error envelope
and stops. `Purge` is a stub that checks nothing: it answers `{}` on any socket.
-/

namespace SimplePush.Unbound

open SimplePush.Json SimplePush.Messages SimplePush.Program SimplePush.Handlers SimplePush.Sniffer
open SimplePush.HandlerSpec
open SimplePush.Program.Prog (Runs)

variable {valid : String → Bool} {toStatus : Err → Int × String} {w : Worker} {s : PushWS}
  {h : RequestHeader} {raw : List UInt8}

end SimplePush.Unbound
