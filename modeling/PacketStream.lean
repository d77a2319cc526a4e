import PacketStream.Bits.BitSet
import PacketStream.Bits.FixedBitSet
import PacketStream.Config.Options
import PacketStream.Connection.Buffered
import PacketStream.Packet.Clientbound
import PacketStream.Packet.Serverbound
import PacketStream.Proofs.Buffer.Queue
import PacketStream.Proofs.Compression
import PacketStream.Proofs.Connection.Atomicity
import PacketStream.Proofs.Connection.Boundary
import PacketStream.Proofs.Connection.Delivery
import PacketStream.Proofs.Connection.Forwarding
import PacketStream.Proofs.Connection.Handover
import PacketStream.Proofs.Connection.Isolation
import PacketStream.Proofs.Connection.Modes
import PacketStream.Proofs.Connection.Receiving
import PacketStream.Proofs.Connection.Sending
import PacketStream.Proofs.Connection.Session
import PacketStream.Proofs.Connection.Streaming
import PacketStream.Proofs.Connection.Threshold
import PacketStream.Proofs.Connection.Truncation
import PacketStream.Proofs.Frame.Bytewise
import PacketStream.Proofs.Frame.Chunks
import PacketStream.Proofs.Frame.Contents
import PacketStream.Proofs.Frame.Front
import PacketStream.Proofs.Frame.Grammar
import PacketStream.Proofs.Frame.Layout
import PacketStream.Proofs.Frame.Reading
import PacketStream.Proofs.Frame.Recovery
import PacketStream.Proofs.Link.Reading
import PacketStream.Proofs.Link.Writing
import PacketStream.Proofs.Outcome
import PacketStream.Proofs.Packet.Canonical
import PacketStream.Proofs.Packet.Registry
import PacketStream.Proofs.Packet.RoundTrip
import PacketStream.Proofs.Packet.Truncation
import PacketStream.Proofs.Packet.Validity
import PacketStream.Proofs.Varint.Prefix
import PacketStream.Proofs.Zlib.Supply
import PacketStream.Proofs.Buffer.Fields
import PacketStream.Proofs.Buffer.Varint
import PacketStream.Proofs.Buffer.Reading
import PacketStream.Proofs.Buffer.Text
import PacketStream.Proofs.Bits.Packing
import PacketStream.Proofs.Bits.Integer
import PacketStream.Proofs.Bits.Operations
import PacketStream.Proofs.Bits.Wire
import PacketStream.Proofs.Bits.Width
import PacketStream.Proofs.Bits.SpareBits
import PacketStream.Proofs.Buffer.Composite
import PacketStream.Proofs.Buffer.History
import PacketStream.Proofs.Config.Setting
import PacketStream.Proofs.Config.Options
import PacketStream.Proofs.Json.Number
import PacketStream.Proofs.Json.Room
import PacketStream.Proofs.Json.Spelling
import PacketStream.Proofs.Json.Compact
import PacketStream.Proofs.Packet.Resending
