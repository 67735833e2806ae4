import LanRoom.Concurrency.ProofOutline
import LanRoom.Upload.Model
import LanRoom.Upload.Steps
import LanRoom.Upload.LifeCycle
import LanRoom.Upload.Assertions
import LanRoom.Upload.Sections
import LanRoom.Upload.Outline
import LanRoom.Upload.Integrity
import LanRoom.Upload.Retention
import LanRoom.Upload.Resume
import LanRoom.Upload.LateRequests
import LanRoom.Upload.Expiry
import LanRoom.Auth.GuessLimit
import LanRoom.Chat.Model
import LanRoom.Chat.Steps
import LanRoom.Chat.Effects
import LanRoom.Chat.Outline
import LanRoom.Chat.Privacy
import LanRoom.Chat.Directed
import LanRoom.Chat.Locking
import LanRoom.Chat.Delivery
import LanRoom.Chat.Join
import LanRoom.Chat.Handshake
import LanRoom.Chat.Agreement
import LanRoom.Chat.SenderOrder
import LanRoom.Chat.Presence
import LanRoom.Chat.History
import LanRoom.Chat.SlowClient
import LanRoom.Routes.Model
import LanRoom.Routes.Gate
import LanRoom.Upload.WebClient
import LanRoom.Upload.WebLoop
import LanRoom.Upload.Rejection
import LanRoom.Concurrency.Comparison
import LanRoom.Routes.Independence
import LanRoom.Data.FixedWindow
import LanRoom.Routes.GuessRate
import LanRoom.Go.Net
import LanRoom.Routes.ClientAddress
import LanRoom.Go.Utf8
import LanRoom.Web.Link
import LanRoom.Routes.JoinLink
import LanRoom.Routes.Pruning
import LanRoom.Go.UUID
import LanRoom.Mobile.Client
import LanRoom.Mobile.Room
import LanRoom.Concurrency.LocalInvariant
import LanRoom.Concurrency.ExclusiveInvariant
import LanRoom.Mobile.Moves
import LanRoom.Mobile.Recipients
import LanRoom.Mobile.Calls
import LanRoom.Mobile.ChatLog
import LanRoom.Mobile.Sections
import LanRoom.Mobile.Effects
import LanRoom.Mobile.Cookies
import LanRoom.Mobile.Connected
import LanRoom.Mobile.Offline
import LanRoom.Discovery.Identity
import LanRoom.Data.HeaderField
import LanRoom.Data.Json
import LanRoom.Go.Json
import LanRoom.Mobile.Json
import LanRoom.Discovery.Exchange
import LanRoom.Web.Message
import LanRoom.Concurrency.EventLoop
import LanRoom.Web.Connection
import LanRoom.Mobile.PendingUpload
import LanRoom.Mobile.CrashConsistency
import LanRoom.Data.Entities
import LanRoom.Web.Escape
import LanRoom.Go.LastRune
import LanRoom.Upload.FileName
import LanRoom.Discovery.Responder
import LanRoom.Chat.DeviceList
import LanRoom.Data.SelfDelimiting
import LanRoom.Web.Devices
import LanRoom.Web.DeviceRedraw
import LanRoom.Web.DeviceLabels
import LanRoom.Web.ResumeRecord
import LanRoom.Data.JsonValue
import LanRoom.Go.JsonString
import LanRoom.Go.Struct
import LanRoom.Chat.Wire
import LanRoom.Web.Frames
import LanRoom.Chat.Traffic
import LanRoom.Web.Stringify
import LanRoom.Web.Sending
import LanRoom.Mobile.Frames
import LanRoom.Chat.Relay
import LanRoom.Go.Url
import LanRoom.Upload.Download
import LanRoom.Upload.Restart
import LanRoom.Data.BitPrefix
import LanRoom.Go.CIDR
import LanRoom.Routes.TrustedProxies
