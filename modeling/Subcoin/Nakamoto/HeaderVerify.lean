import Subcoin.Nakamoto.ChainParams
import Subcoin.Primitives.Backend

/-!
# Subcoin — header verification

`HeaderVerifier.verify` with the difficulty rule it enforces. `getNextWorkRequired` reads the first
block of the retarget period through the number index of the client, and from the CSV height on
`verify` asks the client for the median time past of the header it is given.
-/

namespace Subcoin

variable {SE : Type} (env : NodeEnv SE)

def maxFutureBlockTime : Nat := 2 * 60 * 60

inductive HeaderError where
  | badDifficultyBits (got expected : Nat)
  | invalidProofOfWork (err : ValidationError)
  | tooFarInFuture
  | timeTooOld
  | badVersion
  | client (err : ClientError)
deriving DecidableEq

/-! ## Difficulty -/

/-- `calculate_next_work_required`. The product of a target and a timespan wraps at 256 bits. -/
def calculateNextWorkRequired (previousTarget firstBlockTime lastBlockTime : Nat)
    (params : Params) : Nat :=
  let actualTimespan := lastBlockTime - firstBlockTime
  let powTargetTimespan := params.powTargetTimespan
  -- Limit adjustment step.
  let actualTimespan :=
    if actualTimespan < powTargetTimespan / 4 then powTargetTimespan / 4 else actualTimespan
  let actualTimespan :=
    if powTargetTimespan * 4 < actualTimespan then powTargetTimespan * 4 else actualTimespan
  -- Retarget.
  let target := previousTarget * actualTimespan % 2 ^ 256 / powTargetTimespan
  if params.maxAttainableTarget < target then params.maxAttainableTarget else target

def isRetargetHeight (params : Params) (height : Nat) : Bool :=
  params.difficultyAdjustmentInterval ≤ height &&
    height % params.difficultyAdjustmentInterval = 0

/-- The lookup of `get_next_work_required`: the header of the block numbered one interval below
`height`, through the number index. -/
def retargetHeader (c : Client) (height : Nat) (params : Params) : Outcome HeaderError Header := do
  let lastRetargetHeight := height - params.difficultyAdjustmentInterval
  let retargetHeaderHash ←
    Outcome.expect (c.blockHash lastRetargetHeight) "Retarget block must be available; qed"
  Outcome.expect (c.blockHeader env retargetHeaderHash) "Retarget block must be available; qed"

def getNextWorkRequired (c : Client) (lastBlockHeight : Nat) (lastBlock : Header)
    (params : Params) : Outcome HeaderError Nat :=
  if params.noPowRetargeting then pure (env.target lastBlock)
  else
    let height := lastBlockHeight + 1
    -- Only change once per difficulty adjustment interval.
    if isRetargetHeight params height then do
      let retargetHeader ← retargetHeader env c height params
      pure (calculateNextWorkRequired (env.target lastBlock) retargetHeader.time.toNat
        lastBlock.time.toNat params)
    else pure (env.target lastBlock)

/-! ## The header -/

def outdatedVersion (params : Params) (version : Int32) (blockNumber : Nat) : Bool :=
  (version < 2 && params.bip34Height ≤ blockNumber) ||
    (version < 3 && params.bip66Height ≤ blockNumber) ||
    (version < 4 && params.bip65Height ≤ blockNumber)

def checkPow (header : Header) (target : Nat) : Outcome HeaderError Unit :=
  match env.validatePow header target with
  | .ok _ => .ok ()
  | .error e => .err (.invalidProofOfWork e)

/-- The last check of `verify` and the lock time cutoff it returns (BIP 113). -/
def lockTimeCutoff (c : Client) (chainParams : ChainParams) (blockNumber : Nat) (header : Header) :
    Outcome HeaderError Nat :=
  if chainParams.csvHeight ≤ blockNumber then do
    let blockHash := env.blockHash header
    let mtp ← Outcome.expect (c.calculateMedianTimePast env blockHash) "Block must exist; qed"
    Outcome.errIf (header.time.toNat ≤ mtp) .timeTooOld
    pure mtp
  else pure header.time.toNat

/-- `HeaderVerifier::verify`, with the system clock `now` in seconds since the UNIX epoch. The sum
of the clock and the tolerance is a 32-bit one. -/
def verifyHeader (build : Build) (c : Client) (chainParams : ChainParams) (now : Nat)
    (header : Header) : Outcome HeaderError Nat := do
  let prevBlockHash := header.prevBlockhash
  let prevBlockHeader ←
    Outcome.okOr (c.blockHeader env prevBlockHash)
      (.client (.missingHeader prevBlockHash.display))
  let prevBlockHeight ←
    Outcome.expect (c.blockNumber prevBlockHash) "Prev block must exist as we checked before; qed"
  let expectedTarget ←
    getNextWorkRequired env c prevBlockHeight prevBlockHeader chainParams.params
  let actualTarget := env.target header
  Outcome.errIf (env.toCompactLossy actualTarget ≠ env.toCompactLossy expectedTarget)
    (.badDifficultyBits actualTarget expectedTarget)
  checkPow env header actualTarget
  let currentTime := now % 2 ^ 32
  let latest ← build.add 32 currentTime maxFutureBlockTime
  Outcome.errIf (latest < header.time.toNat) .tooFarInFuture
  let blockNumber := prevBlockHeight + 1
  Outcome.errIf (outdatedVersion chainParams.params header.version blockNumber) .badVersion
  lockTimeCutoff env c chainParams blockNumber header

end Subcoin
