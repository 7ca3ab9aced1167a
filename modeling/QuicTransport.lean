import QuicTransport.Config.Settings
import QuicTransport.Connection
import QuicTransport.Protection.PacketOpening
import QuicTransport.Proofs.FrameSequence
import QuicTransport.Proofs.SealedPackets
import QuicTransport.Proofs.Agreement
import QuicTransport.Proofs.CoalescedPackets
import QuicTransport.Proofs.HandshakeOrder
import QuicTransport.Proofs.CryptoLevels
import QuicTransport.Proofs.FrameLegality
import QuicTransport.Proofs.DirectiveTrace
import QuicTransport.Proofs.Fragmentation
import QuicTransport.Proofs.ConnectionCalls
import QuicTransport.Proofs.DirectiveSources
import QuicTransport.Proofs.OrderedPackets
import QuicTransport.Proofs.LostSteps
import QuicTransport.Proofs.FrameAcceptance
import QuicTransport.Proofs.SamplePadding
import QuicTransport.Proofs.OpenedPackets
import QuicTransport.Proofs.Lifecycle
import QuicTransport.Proofs.PacketDispatch
import QuicTransport.Proofs.CryptoBuffers
import QuicTransport.Proofs.PacketQueue
import QuicTransport.Proofs.PacketNumberCodec
import QuicTransport.Proofs.FrameGrammar
import QuicTransport.Proofs.FrameBoundaries
import QuicTransport.Proofs.VarIntPadding
import QuicTransport.Proofs.KeySlots
import QuicTransport.Proofs.MaskedHeaders
import QuicTransport.Proofs.NegotiationPackets
import QuicTransport.Proofs.CryptoConservation
import QuicTransport.Proofs.AckRanges
import QuicTransport.Proofs.FrameWriting
import QuicTransport.Proofs.ActiveDispatch
import QuicTransport.Proofs.QueueDraining
import QuicTransport.Proofs.SampleRange
import QuicTransport.Proofs.CanonicalPayloads
import QuicTransport.Proofs.HeaderLayout
import QuicTransport.Proofs.StreamLimit
import QuicTransport.Proofs.StreamBookkeeping
import QuicTransport.Proofs.ValidConfig
import QuicTransport.Proofs.Nonces
import QuicTransport.Proofs.KeySeparation
