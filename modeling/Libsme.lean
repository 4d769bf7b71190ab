import Libsme.Audio.ByteOrder
import Libsme.Audio.PcmWrite
import Libsme.Audio.Playback
import Libsme.Audio.ReadBounds
import Libsme.Audio.Underrun
import Libsme.Audio.Wavefile
import Libsme.Audio.WorkBuffer
import Libsme.Buffer.BufferStack
import Libsme.Buffer.Interrupt
import Libsme.Email.MailBody
import Libsme.Email.QqEmail
import Libsme.Email.ReplyCode
import Libsme.Email.SendMail
import Libsme.Hid.Axes
import Libsme.Hid.BadValue
import Libsme.Hid.Joystick
import Libsme.Hid.Keyboard
import Libsme.Hid.Report
import Libsme.Input.EventCalls
import Libsme.Input.EventDelivery
import Libsme.Input.EventLoop
import Libsme.Input.EventPoll
import Libsme.Input.EventQueue
import Libsme.Input.EventRequests
import Libsme.Input.EventSync
import Libsme.Input.KeyName
import Libsme.Input.Teardown
import Libsme.Library.Blocks
import Libsme.Library.CString
import Libsme.Library.Chain
import Libsme.Library.History
import Libsme.Library.Interleaving
import Libsme.Library.Lines
import Libsme.Library.Links
import Libsme.Library.Memory
import Libsme.Library.Positional
import Libsme.Library.Ring
import Libsme.Library.Script
import Libsme.Library.Traced
import Libsme.Library.Transition
import Libsme.Mailsend.Authentication
import Libsme.Mailsend.Base64
import Libsme.Mailsend.Base64Decoder
import Libsme.Mailsend.Conversation
import Libsme.Mailsend.Guarantees
import Libsme.Mailsend.Message
import Libsme.Mailsend.Opening
import Libsme.Mailsend.Replies
import Libsme.Mailsend.Session
import Libsme.Mailsend.Steps
import Libsme.Mailsend.Transaction
import Libsme.Mailsend.Wire
import Libsme.Remote.Command
import Libsme.Remote.HandOff
import Libsme.Semantics.Fips180
import Libsme.Semantics.Rfc4648
import Libsme.Semantics.Rfc5321
import Libsme.Semantics.Rfc6455
import Libsme.Semantics.Riff
import Libsme.Serial.BootCommand
import Libsme.Serial.Forward
import Libsme.Serial.LineBuffer
import Libsme.Serial.LineReader
import Libsme.Serial.ReadBuffer
import Libsme.Serial.Wakeup
import Libsme.Websocket.AcceptKey
import Libsme.Websocket.Base64
import Libsme.Websocket.Base64Decode
import Libsme.Websocket.Echo
import Libsme.Websocket.Frame
import Libsme.Websocket.Handshake
import Libsme.Websocket.HeaderLookup
import Libsme.Websocket.HeartData
import Libsme.Websocket.KeyBuffer
import Libsme.Websocket.Server
import Libsme.Websocket.Session
import Libsme.Websocket.Sha1
