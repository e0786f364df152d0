import Subcoin.Crypto.MuHash
import Subcoin.Indexer.RawTransaction
import Subcoin.Mempool.Replacement
import Subcoin.Mempool.ScoreKeys
import Subcoin.Mempool.Screening
import Subcoin.Mempool.SequenceLocks
import Subcoin.Nakamoto.LockTimes
import Subcoin.Nakamoto.MerkleBinding
import Subcoin.Nakamoto.MinDifficulty
import Subcoin.Nakamoto.Retarget
import Subcoin.Nakamoto.ScriptSafety
import Subcoin.Nakamoto.SigOps
import Subcoin.Nakamoto.Spends
import Subcoin.Nakamoto.Supply
import Subcoin.Nakamoto.Verifier
import Subcoin.Pallet.Decoded
import Subcoin.Relay.Discipline
import Subcoin.Script.CodeSeparator
import Subcoin.Script.FindAndDelete
import Subcoin.Script.KeyHash
import Subcoin.Script.Multisig
import Subcoin.Script.Resources
import Subcoin.Script.StackLimits
import Subcoin.Script.StrictDer
import Subcoin.Script.Taproot
import Subcoin.Script.TapscriptSig
import Subcoin.Service.Finalizer
import Subcoin.Sync.Bookkeeping
import Subcoin.Sync.Checkpoint
