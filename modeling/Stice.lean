import Stice.Types
import Stice.Crypto
import Stice.Lib.Mux
import Stice.Lib.Reach
import Stice.Net.Tcp
import Stice.Stun.Message
import Stice.Stun.Layout
import Stice.Stun.RoundTrip
import Stice.Stun.Integrity
import Stice.Lib.Framer
import Stice.Turn.ChannelData
import Stice.Turn.StunConn
import Stice.Net.Addr
import Stice.Stun.Attributes
import Stice.Server.State
import Stice.Server.Alloc
import Stice.Server.Handlers
import Stice.Server.Step
import Stice.Server.Rules
import Stice.Lib.Store
import Stice.Server.Connections
import Stice.Server.Integrity
import Stice.Server.Evolution
import Stice.Server.Pairing
import Stice.Server.Authorization
import Stice.Server.Binds
import Stice.Server.Channels
import Stice.Turn.Client
import Stice.Turn.ClientRules
import Stice.Turn.Lifecycle
import Stice.Turn.Credentials
import Stice.Server.ClientAuth
import Stice.Turn.NonceRotation
import Stice.Lib.Names
import Stice.Server.Queues
import Stice.Turn.Timer
import Stice.Turn.Moves
import Stice.Turn.Paths
import Stice.Turn.InFlight
import Stice.Turn.RetryBudget
import Stice.Lib.Retransmit
import Stice.Turn.Retransmission
import Stice.Turn.BindingSteps
import Stice.Ice.RelaySend
import Stice.Lib.Passage
import Stice.Turn.Delivery
import Stice.Turn.Fidelity
import Stice.Server.Shortcut
import Stice.Ice.Candidate
import Stice.Lib.Fill
import Stice.Ice.Agent
import Stice.Ice.Strategy
import Stice.Ice.Gather
import Stice.Ice.Binding
import Stice.Ice.Run
import Stice.Ice.Moves
import Stice.Ice.Paths
import Stice.Ice.Pairs
import Stice.Ice.PairTable
import Stice.Ice.Transactions
import Stice.Ice.Evidence
import Stice.Ice.Counters
import Stice.Ice.States
import Stice.Ice.Consent
import Stice.Ice.Renomination
import Stice.Ice.Routes
import Stice.Net.Receive
import Stice.Net.Frames
import Stice.Ice.Inbound
import Stice.Server.Ports
import Stice.Server.Allocate
import Stice.Server.Writes
import Stice.Turn.ChannelNumbers
import Stice.Turn.ConnectOutcome
import Stice.Turn.Permissions
import Stice.Ice.TurnDemux
import Stice.Ice.PeerReflexive
import Stice.Ice.Priority
import Stice.Ice.ConsentSchedule
import Stice.Ice.PairPriority
import Stice.Ice.Ledger
import Stice.Ice.AddrRewrite
import Stice.Net.Mdns
import Stice.Net.Poll
import Stice.Net.Queries
import Stice.Net.UdpMux
import Stice.Stun.Client
import Stice.Crypto.Crc32
import Stice.Crypto.Streaming
import Stice.Stun.Addresses
import Stice.Stun.Walks
import Stice.Server.Relayed
