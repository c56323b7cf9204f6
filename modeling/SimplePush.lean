import SimplePush.Json
import SimplePush.Messages
import SimplePush.Program
import SimplePush.Handlers
import SimplePush.Sniffer
import SimplePush.HandlerSpec
import SimplePush.Binding
import SimplePush.Unbound
import SimplePush.PingRate
import SimplePush.Lifecycle
import SimplePush.Listener
import SimplePush.ConnCount
import SimplePush.Interleaving
import SimplePush.HelloRace
import SimplePush.AckRace
import SimplePush.ReplyOrder
import SimplePush.HelloTable
import SimplePush.JsonText
import SimplePush.PingBody
import SimplePush.JsonAccept
import SimplePush.Encode
import SimplePush.JsonRoundTrip
import SimplePush.JsonSound
import SimplePush.Replies
import SimplePush.JsonLex
import SimplePush.JsonSyntax
import SimplePush.HelloReply
import SimplePush.RetryAfter
import SimplePush.Uri
import SimplePush.CanonicalURL
