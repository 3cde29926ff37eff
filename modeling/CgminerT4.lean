import CgminerT4.Library.ByteString
import CgminerT4.Library.Runs
import CgminerT4.Library.Removal
import CgminerT4.Library.CyclicWindow
import CgminerT4.Library.MerkleTree
import CgminerT4.Library.Lines
import CgminerT4.Library.SignedInt
import CgminerT4.Library.Transaction
import CgminerT4.Library.Ranking
import CgminerT4.Library.Repeats
import CgminerT4.Library.DivisorDescent
import CgminerT4.Library.GuardedRwlock
import CgminerT4.Library.DoublyLinked
import CgminerT4.Library.JsonText
import CgminerT4.Source.Jansson
import CgminerT4.Source.Hex
import CgminerT4.Source.WorkItem
import CgminerT4.Source.ShareTable
import CgminerT4.Source.ShareSender
import CgminerT4.Source.GetworkTransport
import CgminerT4.Source.GetworkJob
import CgminerT4.Source.CreateJob
import CgminerT4.Source.StratumTemplate
import CgminerT4.Source.GbtMerkle
import CgminerT4.Source.GbtWitness
import CgminerT4.Source.LineReader
import CgminerT4.Source.StratumSend
import CgminerT4.Source.SessionTable
import CgminerT4.Source.Reconnect
import CgminerT4.Source.T4Chain
import CgminerT4.Source.WorkRoll
import CgminerT4.Source.GbtTemplate
import CgminerT4.Source.BlockSubmit
import CgminerT4.Source.PoolControl
import CgminerT4.Source.PoolQuota
import CgminerT4.Source.ShareSubmission
import CgminerT4.Source.CompoundLock
import CgminerT4.Source.Klist
import CgminerT4.Source.PoolConfig
import CgminerT4.Source.ApiReply
import CgminerT4.Source.ApiReports
import CgminerT4.Source.ApiServer
import CgminerT4.Source.ApiControl
import CgminerT4.Source.HttpProxy
import CgminerT4.Source.ShareResult
import CgminerT4.Source.SeenBlocks
import CgminerT4.Source.GetworkSubmit
import CgminerT4.Guarantees.ShareCounter
import CgminerT4.Guarantees.ShareAccounting
import CgminerT4.Guarantees.TransportRoundTrip
import CgminerT4.Guarantees.JobIsolation
import CgminerT4.Guarantees.NonceSpace
import CgminerT4.Guarantees.JobEncoding
import CgminerT4.Guarantees.NotifyTemplate
import CgminerT4.Guarantees.TemplateConsistency
import CgminerT4.Guarantees.CoinbaseReconstruction
import CgminerT4.Guarantees.GbtMerkleBranch
import CgminerT4.Guarantees.LineFraming
import CgminerT4.Guarantees.WitnessCommitment
import CgminerT4.Guarantees.SendFraming
import CgminerT4.Guarantees.SessionIds
import CgminerT4.Guarantees.ReconnectDomain
import CgminerT4.Guarantees.StagedJobs
import CgminerT4.Guarantees.RequestReplies
import CgminerT4.Guarantees.ResultAttribution
import CgminerT4.Guarantees.FlushedWork
import CgminerT4.Guarantees.WorkOwnership
import CgminerT4.Guarantees.NonceLayout
import CgminerT4.Guarantees.RollableCount
import CgminerT4.Guarantees.CloneDistinct
import CgminerT4.Guarantees.SoloTemplate
import CgminerT4.Guarantees.TemplateAtomicity
import CgminerT4.Guarantees.SoloCoinbase
import CgminerT4.Guarantees.NtimeCoherence
import CgminerT4.Guarantees.BlockSubmission
import CgminerT4.Guarantees.PoolCommands
import CgminerT4.Guarantees.PoolPriorities
import CgminerT4.Guarantees.EnabledPools
import CgminerT4.Guarantees.DuplicateFilter
import CgminerT4.Guarantees.QuotaGcd
import CgminerT4.Guarantees.DifficultyQueue
import CgminerT4.Guarantees.TargetGate
import CgminerT4.Guarantees.CompoundLockSafety
import CgminerT4.Guarantees.ControlReplies
import CgminerT4.Guarantees.CoreCount
import CgminerT4.Guarantees.HostileNotify
import CgminerT4.Guarantees.ListRepresentation
import CgminerT4.Guarantees.ConfigReload
import CgminerT4.Guarantees.ReadOnlyAccess
import CgminerT4.Guarantees.ReplyForm
import CgminerT4.Guarantees.ReportReplies
import CgminerT4.Guarantees.HeightPush
import CgminerT4.Guarantees.WitnessRule
import CgminerT4.Guarantees.HexCodec
import CgminerT4.Guarantees.Base58Value
import CgminerT4.Guarantees.MandatoryRules
import CgminerT4.Guarantees.PoolSwitching
import CgminerT4.Guarantees.PriorityOrder
import CgminerT4.Guarantees.PoolSelection
import CgminerT4.Guarantees.LoadBalance
import CgminerT4.Guarantees.ProxyHandshake
import CgminerT4.Guarantees.RejectReasons
import CgminerT4.Guarantees.NetworkDifficulty
import CgminerT4.Guarantees.ShareVerdict
import CgminerT4.Guarantees.SeenDatabase
import CgminerT4.Guarantees.BlockHeight
import CgminerT4.Guarantees.AddressExtraction
import CgminerT4.Guarantees.CoinbaseSplice
import CgminerT4.Guarantees.TemplateBounds
import CgminerT4.Guarantees.PllLookup
import CgminerT4.Guarantees.WorkSize
import CgminerT4.Guarantees.CooldownTiming
import CgminerT4.Guarantees.BlockingPop
import CgminerT4.Guarantees.NonceWindow
import CgminerT4.Guarantees.ApiLists
import CgminerT4.Guarantees.EscapedParameter
import CgminerT4.Guarantees.SocksHandshake
import CgminerT4.Guarantees.MessageLength
import CgminerT4.Guarantees.AccessList
import CgminerT4.Guarantees.PacketChecksum
import CgminerT4.Guarantees.SemDeadline
import CgminerT4.Guarantees.ReplyBuffers
import CgminerT4.Guarantees.SubstringPlace
import CgminerT4.Guarantees.HashSort
import CgminerT4.Guarantees.HeaderMidstates
import CgminerT4.Guarantees.StagedMemory
import CgminerT4.Guarantees.JsonLexer
import CgminerT4.Guarantees.JsonReads
import CgminerT4.Guarantees.JsonRoundTrip
