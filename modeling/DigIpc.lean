import DigIpc.Interaction
import DigIpc.Machine
import DigIpc.Client
import DigIpc.SignedMessages
import DigIpc.EngineHistory
import DigIpc.EngineFailures
import DigIpc.EngineCapacity
import DigIpc.TransportFraming
import DigIpc.ClientRuns
import DigIpc.ClientTraces
import DigIpc.RefusalTaxonomy
import DigIpc.CallbackOutcome
import DigIpc.ReadLoop
import DigIpc.ClientCustody
import DigIpc.WireRoundTrip
import DigIpc.CallbackReplies
import DigIpc.DroppedPipe
import DigIpc.Correlation
import DigIpc.AttachAuthentication
import DigIpc.EngineLifetimes
import DigIpc.Exchanges
import DigIpc.Network
import DigIpc.HandshakeAgreement
import DigIpc.CallProgress
import DigIpc.SessionAgreement
import DigIpc.Pipes
