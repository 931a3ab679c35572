import Onvm.Bytes
import Onvm.Bincode
import Onvm.OrderedStore
import Onvm.WeightedQuorum
import Onvm.Runs
import Onvm.Interleaving
import Onvm.LossyUtf8
import Onvm.Overlays
import Onvm.PairReduction
import Onvm.BatchRaces
import Onvm.Handover
import Onvm.RecentWindows
import Onvm.Tables
import Onvm.Tallies
import Onvm.MeteredPrograms
import Onvm.Types
import Onvm.Wire
import Onvm.SparseMerkle
import Onvm.Platform
import Onvm.SparseMerkleProofs
import Onvm.StateStore
import Onvm.LegacyMerkle
import Onvm.ReceiptVerifier
import Onvm.ProgramCatalog
import Onvm.UnifiedStore
import Onvm.ContentAddressing
import Onvm.ObjectRoundTrip
import Onvm.ChunkTransfer
import Onvm.ChunkFallback
import Onvm.ManifestLookup
import Onvm.CompleteObjects
import Onvm.Engine
import Onvm.Runtime
import Onvm.Finalization
import Onvm.SignerBitmaps
import Onvm.Handlers
import Onvm.Execution
import Onvm.Machine
import Onvm.ManifestEncoding
import Onvm.Ledger
import Onvm.LedgerChange
import Onvm.CallSteps
import Onvm.Steps
import Onvm.Commitments
import Onvm.CommittedChain
import Onvm.History
import Onvm.RemoteState
import Onvm.StateSync
import Onvm.VotedReceipts
import Onvm.Leadership
import Onvm.ProgramHeads
import Onvm.DeliveryOrder
import Onvm.ApplySteps
import Onvm.Threads
import Onvm.ThreadRuns
import Onvm.VoteSafety
import Onvm.Agreement
import Onvm.Completion
import Onvm.CrashRecovery
import Onvm.ConcurrentCatchUp
import Onvm.Deployment
import Onvm.CommittedHeights
import Onvm.IdText
import Onvm.HostApis
import Onvm.Sandbox
import Onvm.StateCalls
import Onvm.GuestArguments
import Onvm.GuestBuffers
import Onvm.ReceiptOrigins
import Onvm.CollectedVotes
import Onvm.ForwardTurns
import Onvm.ForwardRequests
import Onvm.LeaderRequests
import Onvm.SubmissionPlaces
import Onvm.Submissions
import Onvm.Jobs
import Onvm.JobMachine
import Onvm.JobMoves
import Onvm.JobRecords
import Onvm.JobStatuses
import Onvm.JobAttempts
import Onvm.JobRest
import Onvm.JobRequests
import Onvm.JobGossip
import Onvm.JobReplication
import Onvm.JobConcurrency
import Onvm.JobBackoff
import Onvm.RpcAuth
import Onvm.CanonicalRequests
import Onvm.ReplayProtection
import Onvm.RecentNonces
import Onvm.NetworkService
import Onvm.Handshakes
import Onvm.PeerEvents
import Onvm.TransferAccounting
import Onvm.PeerExchange
import Onvm.Inventory
import Onvm.LoadBalancer
import Onvm.MessageQueue
import Onvm.IdParsing
import Onvm.TomlTables
import Onvm.Configuration
import Onvm.Limbs
import Onvm.CurveOrder
import Onvm.CurveScalars
import Onvm.CurvePoints
import Onvm.ThresholdSigning
import Onvm.ContentDetector
import Onvm.BlobGateway
import Onvm.BloomFilters
import Onvm.OwnChains
import Onvm.LocalCalls
import Onvm.SoleLeader
import Onvm.SerialCalls
import Onvm.HeadGossip
import Onvm.ObjectFetch
import Onvm.FetchDelivery
