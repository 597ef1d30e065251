import ArcChain.Crypto.MerkleTree
import ArcChain.Channel.Endpoints
import ArcChain.Consensus.Collectors
import ArcChain.Consensus.Finality
import ArcChain.Node.FinalityLoop
import ArcChain.Consensus.CommitAgreement
import ArcChain.State.Atomicity
import ArcChain.State.BondRestart
import ArcChain.State.SpeculativeSound
import ArcChain.State.RewardBudget
import ArcChain.State.JmtTree
import ArcChain.Native.Selection
import ArcChain.Consensus.QuorumIntersection
import ArcChain.Consensus.Pending
import ArcChain.Consensus.ImportSafe
import ArcChain.Native.LightClient
import ArcChain.Native.Checkpoint
import ArcChain.Inference.DyadicOverflow
import ArcChain.Consensus.DataAvailability
import ArcChain.Consensus.CrossShard
import ArcChain.State.StakeRegistry
import ArcChain.State.Tier1Payout
import ArcChain.Consensus.SkipTracker
import ArcChain.Assign.Book
import ArcChain.Assign.Reservation
import ArcChain.Inference.FlashAttention
import ArcChain.Inference.Committee
