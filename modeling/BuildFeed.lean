import BuildFeed.Message.Family
import BuildFeed.Relay.Link
import BuildFeed.Relay.Network
import BuildFeed.Relay.Record
import BuildFeed.Wire.Channel
import BuildFeed.Wire.Slot
import BuildFeed.Wire.InPlace.Frame
import BuildFeed.Proofs.Transfer.Image
import BuildFeed.Proofs.Transfer.Codec
import BuildFeed.Proofs.Transfer.EventFrame
import BuildFeed.Proofs.Transfer.PacketStream
import BuildFeed.Proofs.Transfer.Appended
import BuildFeed.Proofs.Transfer.Refusal
import BuildFeed.Proofs.Framing.Codec
import BuildFeed.Proofs.Framing.Packet
import BuildFeed.Proofs.Framing.Cut
import BuildFeed.Proofs.Framing.Failure
import BuildFeed.Proofs.Transfer.Stopped
import BuildFeed.Proofs.Transfer.Resumed
import BuildFeed.Proofs.Relay.Handshake
import BuildFeed.Proofs.Relay.Link
import BuildFeed.Proofs.Relay.Pump
import BuildFeed.Proofs.Relay.Session
import BuildFeed.Proofs.Grammar.Frame
import BuildFeed.Proofs.Grammar.Accept
import BuildFeed.Proofs.Grammar.Codec
import BuildFeed.Proofs.Grammar.PropertyTable
import BuildFeed.Proofs.Grammar.Kind
import BuildFeed.Proofs.Grammar.Event
import BuildFeed.Proofs.Grammar.Resend
import BuildFeed.Proofs.Message.History
import BuildFeed.Proofs.Message.TemplateGrammar
import BuildFeed.Proofs.Relay.Isolation
import BuildFeed.Proofs.Relay.Cancellation
import BuildFeed.Proofs.Relay.Shutdown
import BuildFeed.Proofs.Relay.Agreement
import BuildFeed.Proofs.Message.RenderedArgs
import BuildFeed.Proofs.Transfer.Timestamp
import BuildFeed.Proofs.Limits.Extent
import BuildFeed.Proofs.Limits.Codec
import BuildFeed.Proofs.Limits.Event
import BuildFeed.Proofs.Limits.Received
import BuildFeed.Proofs.InPlace.Sending
import BuildFeed.Proofs.InPlace.Writing
import BuildFeed.Proofs.InPlace.Reading
import BuildFeed.Proofs.Decimal.Value
import BuildFeed.Proofs.Decimal.Digits
import BuildFeed.Proofs.Message.Decimals
import BuildFeed.Proofs.Decimal.Whole
import BuildFeed.Proofs.Text.Numeral
import BuildFeed.Proofs.Text.Alphabet
import BuildFeed.Proofs.Message.Integers
import BuildFeed.Proofs.Message.Placeholder
import BuildFeed.Proofs.Message.OversizedWidth
import BuildFeed.Proofs.Locale.Separators
import BuildFeed.Proofs.Locale.Name
import BuildFeed.Proofs.InPlace.Forgetting
import BuildFeed.Proofs.Event.LocalTime
