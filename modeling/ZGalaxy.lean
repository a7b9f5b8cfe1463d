import ZGalaxy.Bytes
import ZGalaxy.Machine
import ZGalaxy.Coverage
import ZGalaxy.Address
import ZGalaxy.Packet
import ZGalaxy.Buffer
import ZGalaxy.Armor
import ZGalaxy.Switch
import ZGalaxy.Isolation
import ZGalaxy.Reassembly
import ZGalaxy.ConfigChunks
import ZGalaxy.Hashtable
import ZGalaxy.InetAddress
import ZGalaxy.Rules
import ZGalaxy.Credentials
import ZGalaxy.Custody
import ZGalaxy.Membership
import ZGalaxy.Network
import ZGalaxy.Gate
import ZGalaxy.Revoked
import ZGalaxy.Filter
import ZGalaxy.FilterSemantics
import ZGalaxy.Ownership
import ZGalaxy.CapabilityFilter
import ZGalaxy.ConfigUpdate
import ZGalaxy.ConfigDelivery
import ZGalaxy.ConfigConcurrency
import ZGalaxy.ConfigInstall
import ZGalaxy.Reader
import ZGalaxy.Fresh
import ZGalaxy.World
import ZGalaxy.Endpoints
import ZGalaxy.Topology
import ZGalaxy.Upstreams
import ZGalaxy.WorldUpdates
import ZGalaxy.Refresh
import ZGalaxy.Restart
import ZGalaxy.SortedMap
import ZGalaxy.Json
import ZGalaxy.PhysicalPaths
import ZGalaxy.TryDecode
import ZGalaxy.Carried
import ZGalaxy.MulticastLike
import ZGalaxy.Subscriptions
import ZGalaxy.CredentialReaders
import ZGalaxy.Bridging
import ZGalaxy.Retry
import ZGalaxy.Newest
import ZGalaxy.CredentialsPacket
import ZGalaxy.CredentialsAgain
import ZGalaxy.CredentialsRetry
import ZGalaxy.JsonRecords
import ZGalaxy.FileDB
import ZGalaxy.MapIndex
import ZGalaxy.DBEffects
import ZGalaxy.DBIndex
import ZGalaxy.Deauthorization
import ZGalaxy.Numerals
import ZGalaxy.InetText
import ZGalaxy.RuleJson
import ZGalaxy.ComThreshold
import ZGalaxy.Transports
import ZGalaxy.FrameReads
import ZGalaxy.Leniency
import ZGalaxy.Relaying
import ZGalaxy.Fragmenting
import ZGalaxy.Broadcast
import ZGalaxy.PeerPaths
import ZGalaxy.Prefixes
import ZGalaxy.WorldCodec
import ZGalaxy.OwnershipObject
import ZGalaxy.RuleCodec
import ZGalaxy.SortedVector
import ZGalaxy.Multicaster
import ZGalaxy.Composing
import ZGalaxy.Announcing
import ZGalaxy.CredentialWriters
import ZGalaxy.ComMeaning
import ZGalaxy.PushCredentials
import ZGalaxy.Dictionary
import ZGalaxy.Entries
import ZGalaxy.Filling
import ZGalaxy.ConfigDictionary
import ZGalaxy.ArrayBounds
import ZGalaxy.Chains
import ZGalaxy.HashChains
import ZGalaxy.HashRuns
import ZGalaxy.JsonEquality
import ZGalaxy.MirrorSet
import ZGalaxy.RecordComparison
import ZGalaxy.Gathering
import ZGalaxy.Logged
import ZGalaxy.FrameExtents
import ZGalaxy.Behaviours
import ZGalaxy.DnsService
import ZGalaxy.Wakeups
import ZGalaxy.Fallback
import ZGalaxy.Sending
import ZGalaxy.BoundedWrites
import ZGalaxy.IssuedLists
import ZGalaxy.AddressAssignment
import ZGalaxy.ConfigBuilding
import ZGalaxy.PoolSearch
import ZGalaxy.Reassignment
import ZGalaxy.IdentityText
import ZGalaxy.RingBuffer
import ZGalaxy.ExpectingReplies
import ZGalaxy.RootPolicy
import ZGalaxy.PeerTable
import ZGalaxy.PathLookup
import ZGalaxy.QosMeasurement
import ZGalaxy.BridgeRoutes
import ZGalaxy.ExternalConfig
import ZGalaxy.SortedPrefix
import ZGalaxy.PathTable
import ZGalaxy.LocalConf
import ZGalaxy.ConfReload
import ZGalaxy.MoonsWatcher
import ZGalaxy.IdentityCodec
import ZGalaxy.AddressCodec
import ZGalaxy.RouteFork
import ZGalaxy.ManagedQueues
import ZGalaxy.QueueAccounting
import ZGalaxy.QueueIsolation
import ZGalaxy.Bond
import ZGalaxy.BondFlows
import ZGalaxy.MarkedScan
import ZGalaxy.FlowEviction
import ZGalaxy.ActiveBackup
import ZGalaxy.BondRuns
import ZGalaxy.Striping
import ZGalaxy.RoundRobin
import ZGalaxy.FlowAssignment
import ZGalaxy.BondedPaths
import ZGalaxy.FlowAccounting
import ZGalaxy.FailoverChoice
import ZGalaxy.Words
import ZGalaxy.Blocks
import ZGalaxy.Poly1305
import ZGalaxy.Poly1305Wide
import ZGalaxy.Poly1305Portable
import ZGalaxy.Salsa20
import ZGalaxy.Rijndael
import ZGalaxy.Aes
import ZGalaxy.AesCtr
import ZGalaxy.Carryless
import ZGalaxy.Ghash
import ZGalaxy.Gmac
import ZGalaxy.GmacSiv
import ZGalaxy.PacketCiphers
