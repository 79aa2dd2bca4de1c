import Sxiaum.Consensus.PrepareCheck
import Sxiaum.Consensus.LeaderElection
import Sxiaum.Node.VoteSafety
import Sxiaum.Consensus.Restart
import Sxiaum.Zk.CertificateChain
import Sxiaum.State.TreeHistory
import Sxiaum.Zk.BlockWitness
import Sxiaum.Storage.Finality
import Sxiaum.Zk.StfOrdering
import Sxiaum.Client.HeaderSafety
import Sxiaum.Client.ClientFinality
import Sxiaum.Consensus.ForgedVotes
import Sxiaum.Consensus.VoteAdmission
import Sxiaum.Consensus.PhaseOrder
import Sxiaum.Consensus.SetOperations
import Sxiaum.Consensus.ViewChange
import Sxiaum.Node.RefusedBlock
import Sxiaum.Execution.VestingLock
import Sxiaum.Execution.Vesting
import Sxiaum.Execution.GasMeter
import Sxiaum.Consensus.LockUp
import Sxiaum.Consensus.StakingPartial
import Sxiaum.Parallel.Validation
import Sxiaum.Parallel.Serializability
import Sxiaum.Parallel.Interleaving
import Sxiaum.Mempool.CommitReplay
import Sxiaum.BodyMerkle
import Sxiaum.Crypto.MerkleTree
