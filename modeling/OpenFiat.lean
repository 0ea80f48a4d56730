import OpenFiat.ReservedBacking
import OpenFiat.ArbitrationPool
import OpenFiat.DisputeTally
import OpenFiat.SeatDraw
import OpenFiat.ApprovedSettlements
import OpenFiat.UnbondingRelease
import OpenFiat.StakeAge
import OpenFiat.BanListAuthority
import OpenFiat.ProposalDeposits
import OpenFiat.ProposalMajority
import OpenFiat.SettlementConvergence
import OpenFiat.FeeConservation
import OpenFiat.RecoveryResponse
import OpenFiat.SessionRevocation
import OpenFiat.ChainResolution
import OpenFiat.PeerAuthenticity
import OpenFiat.SettlementReleases
import OpenFiat.DisputeVerdicts
import OpenFiat.SnapshotWorldview
import OpenFiat.SnapshotEncoding
import OpenFiat.OutcomeDecoding
import OpenFiat.ArbitrationBench
import OpenFiat.OrderBookSearch
import OpenFiat.ServiceReplay
import OpenFiat.ClaimBounds
import OpenFiat.AttachmentRegistry
import OpenFiat.ReviewRegistry
import OpenFiat.SessionConvergence
import OpenFiat.OracleIndex
import OpenFiat.PaymentMethods
import OpenFiat.SubscriptionUpdates
import OpenFiat.PayloadArithmetic
import OpenFiat.BitswapReplies
import OpenFiat.BlockDag
import OpenFiat.RewardSchedules
import OpenFiat.AmountDisplay
import OpenFiat.SigningDomains
import OpenFiat.BlockhashCache
import OpenFiat.BoundedWalk
import OpenFiat.SnapshotPruning
import OpenFiat.ContentAnnouncements
import OpenFiat.GossipNetwork
