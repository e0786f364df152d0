import Subcoin.Lib.Kahn
import Subcoin.Lib.Lookup
import Subcoin.Mempool.CoinsView
import Subcoin.Mempool.Inner
import Subcoin.Mempool.Policy

/-!
# Subcoin — acceptance of transactions

The checks before a transaction enters the mempool, the insertion of a checked one, and packages.
A function that the source gives a mutable workspace or coins cache is a computation on that state:
what it wrote before an error stays written. Chain data is asked of `client`, `now` is the clock in
seconds.
-/

namespace Subcoin.Mempool

/-- `ValidationWorkspace`, without the set of ancestors that nothing fills. -/
structure ValidationWorkspace where
  tx : Transaction
  baseFee : Nat
  modifiedFee : Nat
  txWeight : Nat
  vsize : Int
  sigopCost : Int
  lockPoints : LockPoints
  spendsCoinbase : Bool
  conflicts : HashSet Txid
  conflictSet : Option ConflictSet

/-- Nothing has been checked yet. -/
def ValidationWorkspace.new {SE : Type} (env : PoolEnv SE) (tx : Transaction) :
    ValidationWorkspace where
  tx := tx
  baseFee := 0
  modifiedFee := 0
  txWeight := env.txWeight tx
  vsize := toSigned 64 (toVbytesCeil (env.txWeight tx))
  sigopCost := 0
  lockPoints := .default
  spendsCoinbase := false
  conflicts := .empty
  conflictSet := none

/-- The state of the checks of one transaction. -/
structure Checking where
  ws : ValidationWorkspace
  coins : CoinsViewCache

/-- `MemPool`: what its two locks guard, and its counters. -/
structure MemPool where
  inner : MemPoolInner
  coinsCache : CoinsViewCache
  transactionsUpdated : Nat
  sequenceNumber : Nat

/-- What a call finds: the node, the clock, and the iteration order of hash sets. -/
structure Moment where
  client : Client
  now : Nat
  order : HashOrder

def maxStandardTxSigopsCost : Int := 80000

/-- The computation on the coins cache alone. -/
def onCoins {α : Type} (x : Stateful CoinsViewCache MempoolError α) :
    Stateful Checking MempoolError α :=
  Stateful.zoom Checking.coins (fun coins st => { st with coins := coins }) x

/-- `iter().sum::<Amount>()` over the values of outputs. -/
def sumOutputs {ε : Type} (build : Build) (outs : List TxOut) : Outcome ε Nat :=
  outs.foldlM (fun acc txout => build.add 64 acc txout.value) 0

/-- `is_final_tx` of the mempool. -/
def isFinalTx (tx : Transaction) (height blockTime : Nat) : Bool :=
  if tx.lockTime = LockTime.zero then true
  else
    let lockTimeLimit :=
      if tx.lockTime.toConsensusU32 < lockTimeThreshold then height else blockTime
    if tx.lockTime.toConsensusU32 < lockTimeLimit then true
    else tx.input.all TxIn.isFinal

/-! ## Replacement -/

section

variable {SE : Type} (env : PoolEnv SE) (build : Build) (options : MemPoolOptions)
  (m : Moment)

/-- The entries that an input of the transaction conflicts with. -/
def collectConflicts (inner : MemPoolInner) (tx : Transaction) : HashSet EntryId :=
  HashSet.empty.extend
    (tx.spends.filterMap fun outpoint =>
      (inner.getConflictTx outpoint).bind inner.arena.getByTxid)

/-- What the conflicts of a replacement add up to. -/
structure Replaced where
  fees : Nat
  size : Int
  transactions : List Transaction

/-- An entry that would be replaced is added up. -/
def addReplaced (inner : MemPoolInner) (acc : Replaced) (id : EntryId) :
    Outcome MempoolError Replaced := do
  let entry ← Outcome.okOr (inner.get id) .missingConflict
  let fees ← Outcome.okOr (checkedUnsigned 64 (acc.fees + entry.modifiedFee)) .feeOverflow
  let size ← build.addSigned acc.size entry.vsize
  pure ⟨fees, size, acc.transactions ++ [entry.tx]⟩

/-- BIP 125 rule 1. -/
def checkSignals (inner : MemPoolInner) (id : EntryId) : Outcome MempoolError Unit := do
  let entry ← Outcome.okOr (inner.get id) .missingConflict
  Outcome.errIf (!entry.signalsRbf) .txNotReplaceable

/-- `check_rbf_policy`. -/
def checkRbfPolicy (inner : MemPoolInner) (ws : ValidationWorkspace) :
    Outcome MempoolError ConflictSet := do
  let directConflicts := collectConflicts inner ws.tx
  Outcome.errIf directConflicts.isEmpty .noConflictToReplace
  let allConflicts :=
    (directConflicts.iter m.order).foldl (inner.arena.calculateDescendants m.order) .empty
  Outcome.errIf (options.maxReplacementTxs < allConflicts.len)
    (.tooManyReplacements allConflicts.len)
  let _ ← (directConflicts.iter m.order).mapM (checkSignals inner)
  let replaced ← (allConflicts.iter m.order).foldlM (addReplaced build inner) ⟨0, 0, []⟩
  Outcome.errIf ((inner.arena.parentIds ws.tx).any fun id => id ∉ allConflicts) .newUnconfirmedInput
  Outcome.errIf (ws.modifiedFee ≤ replaced.fees)
    (.insufficientFee
      ("replacement fee " ++ env.displayAmount ws.modifiedFee ++ " <= replaced fees " ++
        env.displayAmount replaced.fees))
  let minRelayRate := options.minRelayFeeRate
  let ownBandwidthFee ← minRelayRate.getFee ws.vsize
  let additionalFee ← build.subSigned (toSigned 64 ws.modifiedFee) (toSigned 64 replaced.fees)
  Outcome.errIf (additionalFee < toSigned 64 ownBandwidthFee)
    (.insufficientFee
      ("doesn't pay for own bandwidth: additional " ++
        env.displayAmount (toUnsigned 64 additionalFee) ++ " < required " ++
        env.displayAmount ownBandwidthFee))
  let replacedBandwidthFee ← minRelayRate.getFee replaced.size
  Outcome.errIf (additionalFee < toSigned 64 replacedBandwidthFee)
    (.insufficientFee
      ("doesn't pay for replaced bandwidth: additional " ++
        env.displayAmount (toUnsigned 64 additionalFee) ++ " < required " ++
        env.displayAmount replacedBandwidthFee))
  pure ⟨directConflicts, allConflicts, replaced.transactions, replaced.fees, replaced.size⟩

/-! ## Relative lock times -/

/-- BIP 68: the input has no relative lock. -/
def sequenceLocktimeDisableFlag : Nat := 2 ^ 31

/-- BIP 68: the lock is a time, not a height. -/
def sequenceLocktimeTypeFlag : Nat := 2 ^ 22

def sequenceLocktimeMask : Nat := 0x0000ffff

/-- Relative times are in units of 512 seconds. -/
def sequenceLocktimeGranularity : Int := 512

/-- The lock of one input, on top of the locks of the inputs before it. -/
def addLock (locks : LockPoints) (sequence : Nat) (coin : PoolCoin) :
    Outcome MempoolError LockPoints := do
  let disabled := sequence &&& sequenceLocktimeDisableFlag ≠ 0
  Outcome.errIf (coin.isCoinbase && !disabled) .nonBIP68Final
  let maskedSequence := sequence &&& sequenceLocktimeMask
  if disabled then pure locks
  else if sequence &&& sequenceLocktimeTypeFlag = 0 then do
    let coinLockHeight ← Outcome.okOr
      ((checkedUnsigned 32 (coin.height + maskedSequence)).bind fun h =>
        checkedUnsigned 32 (h + 1)) .nonBIP68Final
    pure { locks with height := max locks.height (toSigned 32 coinLockHeight) }
  else do
    let offset ← Outcome.okOr
      (checkedSigned 64 (maskedSequence * sequenceLocktimeGranularity)) .nonBIP68Final
    let coinLockTime ← Outcome.okOr (checkedSigned 64 (coin.medianTimePast + offset))
      .nonBIP68Final
    pure { locks with time := max locks.time coinLockTime }

/-- `calculate_lock_points_at_tip`. The highest input block is never recorded. -/
def calculateLockPointsAtTip (tx : Transaction) (currentHeight : Nat) (currentMtp : Int) :
    Stateful CoinsViewCache MempoolError LockPoints := do
  let locks ← Stateful.fold
    (fun locks (txin : TxIn) => do
      let coin ← CoinsViewCache.getInputCoin env m.client txin.previousOutput
      Stateful.lift (addLock locks txin.sequence coin))
    (⟨-1, 0, none⟩ : LockPoints) tx.input
  Stateful.lift do
    Outcome.errIf (0 < locks.height && toSigned 32 currentHeight < locks.height) .nonBIP68Final
    Outcome.errIf (0 < locks.time && currentMtp < locks.time) .nonBIP68Final
    pure locks

/-! ## `pre_checks` -/

/-- Step 3, which options can turn off. -/
def checkStandardness (tx : Transaction) : Outcome MempoolError Unit :=
  if options.requireStandard then
    Outcome.mapErr (fun e => .notStandard e.debug)
      (isStandardTx env tx options.maxDatacarrierBytes options.permitBareMultisig
        ⟨options.dustRelayFeerate⟩)
  else pure ()

/-- Steps 1 to 5: what the transaction and the maps of the mempool decide. -/
def checkTransaction (inner : MemPoolInner) (tx : Transaction) : Outcome MempoolError Unit := do
  Outcome.mapErr .txError (checkTransactionSanity env.toEnv tx)
  Outcome.errIf tx.isCoinbase .coinbase
  checkStandardness env options tx
  Outcome.errIf (inner.containsWtxid (env.computeWtxid tx)) .alreadyInMempool
  Outcome.errIf (inner.containsTxid (env.computeTxid tx)) .alreadyInMempool

/-- Step 6: conflicts with entries of the mempool. -/
def checkConflicts (inner : MemPoolInner) : Stateful Checking MempoolError Unit := do
  let st ← Stateful.get
  let found := st.ws.tx.spends.filterMap inner.getConflictTx
  Stateful.modify fun st => { st with ws.conflicts := st.ws.conflicts.extend found }
  if found.isEmpty then pure ()
  else if options.enableRbf then do
    let conflictSet ← Stateful.lift (checkRbfPolicy env build options m inner st.ws)
    Stateful.modify fun st => { st with ws.conflictSet := some conflictSet }
  else
    Stateful.fail (.txConflict "conflicts with mempool transaction but RBF is disabled")

/-- Steps 7 and 8. The missing parents are reported in order, once each. -/
def checkAvailable (outpoints : List OutPoint) : Stateful CoinsViewCache MempoolError Unit := do
  CoinsViewCache.ensureCoins env m.client outpoints
  let coins ← Stateful.get
  let missing := (outpoints.filter fun outpoint => !coins.haveCoin outpoint).map OutPoint.txid
  if missing.isEmpty then pure ()
  else
    Stateful.fail
      (.missingInputs ((missing.mergeSort fun a b => a.hash.bytes ≤ b.hash.bytes).dedup))

/-- What the loop over the inputs collects. -/
structure Inputs where
  value : Nat
  spendsCoinbase : Bool
  prevOutputs : OutPoint → Option TxOut

/-- Step 9, for one input. -/
def addInput (currentHeight : Nat) (acc : Inputs) (outpoint : OutPoint) :
    Stateful CoinsViewCache MempoolError Inputs := do
  let coin ← CoinsViewCache.getInputCoin env m.client outpoint
  Stateful.lift do
    let value ← Outcome.okOr (checkedUnsigned 64 (acc.value + coin.output.value)) .feeOverflow
    Outcome.errIf (coin.isCoinbase && currentHeight - coin.height < 100) .nonFinal
    pure
      { value := value
        spendsCoinbase := acc.spendsCoinbase || coin.isCoinbase
        prevOutputs := Function.update acc.prevOutputs outpoint (some coin.output) }

/-- The rest of step 9, and step 10. -/
def checkFee (tx : Transaction) (vsize : Int) (inputValue : Nat) : Outcome MempoolError Nat := do
  let outputValue ← sumOutputs build tx.output
  Outcome.errIf (inputValue < outputValue) .negativeFee
  let baseFee := inputValue - outputValue
  let minFee ← options.minRelayFeeRate.getFee vsize
  if baseFee < minFee then do
    let actual ← Outcome.ofExcept .invalidFeeRate (FeeRate.fromAmountAndVsize baseFee vsize)
    Outcome.err (.feeTooLow options.minRelayFeeRate.satPerKvb actual.satPerKvb)
  else pure baseFee

/-- Steps 11 and 12. -/
def checkSigops (tx : Transaction) (currentHeight : Nat) (inputs : Inputs) :
    Outcome MempoolError Int := do
  Outcome.errIf (!isFinalTx tx currentHeight (m.now % 2 ^ 32)) .nonFinal
  let sigopCost := env.totalSigopCost tx inputs.prevOutputs
  Outcome.assertTrue (sigopCost < 2 ^ 63) "sigop cost must fit into i64"
  Outcome.errIf (maxStandardTxSigopsCost < sigopCost) (.tooManySigops sigopCost)
  pure sigopCost

/-- `pre_checks`. -/
def preChecks (inner : MemPoolInner) (currentHeight : Nat) (currentMtp : Int) :
    Stateful Checking MempoolError Unit := do
  let tx := (← Stateful.get).ws.tx
  let vsize := (← Stateful.get).ws.vsize
  Stateful.lift (checkTransaction env options inner tx)
  checkConflicts env build options m inner
  onCoins (checkAvailable env m tx.spends)
  let inputs ← onCoins
    (Stateful.fold (addInput env m currentHeight) ⟨0, false, fun _ => none⟩ tx.spends)
  let baseFee ← Stateful.lift (checkFee build options tx vsize inputs.value)
  let sigopCost ← Stateful.lift (checkSigops env m tx currentHeight inputs)
  let lockPoints ← onCoins (calculateLockPointsAtTip env m tx currentHeight currentMtp)
  Stateful.modify fun st =>
    { st with
      ws.baseFee := baseFee
      ws.modifiedFee := baseFee
      ws.spendsCoinbase := inputs.spendsCoinbase
      ws.sigopCost := sigopCost
      ws.lockPoints := lockPoints }

/-! ## Limits and scripts -/

/-- Room for one more descendant of an ancestor. -/
def checkDescendantLimits (inner : MemPoolInner) (vsize : Int) (id : EntryId) :
    Outcome MempoolError Unit := do
  let entry ← Outcome.expect (inner.get id) "Ancestor entry must exist"
  let newDescCount ← build.add 64 entry.countWithDescendants 1
  let newDescSize ← build.addSigned entry.sizeWithDescendants vsize
  Outcome.errIf (options.maxDescendants < newDescCount) (.tooManyDescendants newDescCount)
  Outcome.errIf (options.maxDescendantSize < newDescSize) (.descendantSizeTooLarge newDescSize)

/-- `check_package_limits`. -/
def checkPackageLimits (inner : MemPoolInner) (ws : ValidationWorkspace) :
    Outcome MempoolError Unit := do
  let ancestors := inner.arena.ancestorsOf m.order ws.tx
  Outcome.errIf (options.maxAncestors < ancestors.len + 1) (.tooManyAncestors (ancestors.len + 1))
  let ancestorSize ← ((ancestors.iter m.order).filterMap inner.get).foldlM
    (fun size entry => build.addSigned size entry.vsize) ws.vsize
  Outcome.errIf (options.maxAncestorSize < ancestorSize) (.ancestorSizeTooLarge ancestorSize)
  let _ ← (ancestors.iter m.order).mapM (checkDescendantLimits build options inner ws.vsize)
  pure ()

/-- The rules of consensus. -/
def mandatoryFlags : List Script.VerifyFlag :=
  [.p2sh, .dersig, .nulldummy, .checklocktimeverify, .checksequenceverify, .witness, .taproot]

/-- The rules of consensus and of policy. -/
def standardFlags : List Script.VerifyFlag :=
  mandatoryFlags ++
    [.strictenc, .lowS, .sigpushonly, .minimaldata, .minimalif, .nullfail, .witnessPubkeytype,
      .cleanstack, .discourageUpgradableNops, .discourageUpgradableWitnessProgram,
      .discourageUpgradableTaprootVersion, .discourageUpgradablePubkeytype, .discourageOpSuccess,
      .constScriptcode]

def mandatoryScriptVerifyFlags : Script.VerifyFlags := .ofList mandatoryFlags

def standardScriptVerifyFlags : Script.VerifyFlags := .ofList standardFlags

/-- `check_inputs`. -/
def checkInputs (tx : Transaction) (flags : Script.VerifyFlags) :
    Stateful CoinsViewCache MempoolError Unit :=
  Stateful.forEach
    (fun (txin, inputIndex) => do
      let coin ← CoinsViewCache.getInputCoin env m.client txin.previousOutput
      Stateful.lift <|
        Outcome.mapErr
          (fun e => .scriptValidationFailed
            ("input " ++ toString inputIndex ++ ": " ++ env.displayScriptError e))
          (env.verifyScript txin.scriptSig coin.output.scriptPubkey txin.witness flags.bits tx
            inputIndex coin.output.value))
    tx.input.zipIdx

/-- The checks between `pre_checks` and the insertion, in the order both callers make them. -/
def checkLimitsAndScripts (inner : MemPoolInner) : Stateful Checking MempoolError Unit := do
  let ws := (← Stateful.get).ws
  Stateful.lift (checkPackageLimits build options m inner ws)
  onCoins (checkInputs env m ws.tx standardScriptVerifyFlags)
  onCoins (checkInputs env m ws.tx mandatoryScriptVerifyFlags)

/-! ## Insertion -/

/-- Statistics of an entry and its ancestors. -/
structure AncestorState where
  count : Nat
  size : Int
  fees : Nat
  sigops : Int

/-- One round of the loop over the ancestors of a new entry. -/
def addAncestor (arena : MemPoolArena) (acc : AncestorState) (id : EntryId) :
    Outcome MempoolError AncestorState := do
  let entry ← Outcome.expect (arena.get id) "Ancestor must exist"
  let count ← build.add 64 acc.count 1
  let size ← build.addSigned acc.size entry.vsize
  let fees ← Outcome.okOr (checkedUnsigned 64 (acc.fees + entry.modifiedFee)) .feeOverflow
  let sigops ← build.addSigned acc.sigops entry.sigopCost
  pure ⟨count, size, fees, sigops⟩

/-- What an acceptance records about the tip and about itself. -/
structure EntryContext where
  currentHeight : Nat
  currentTime : Int
  entryBlockMtp : Int
  entryBlockHash : BlockHash
  sequence : Nat

/-- The entry of a checked transaction, given the statistics of its ancestors. The keys are
placeholders that the arena computes. -/
def entryOf (arena : MemPoolArena) (ws : ValidationWorkspace) (ctx : EntryContext)
    (st : AncestorState) : TxMemPoolEntry where
  tx := ws.tx
  fee := ws.baseFee
  modifiedFee := ws.modifiedFee
  txWeight := ws.txWeight
  time := ctx.currentTime
  entryHeight := ctx.currentHeight
  entryBlockMtp := ctx.entryBlockMtp
  entryBlockHash := ctx.entryBlockHash
  entrySequence := ctx.sequence
  spendsCoinbase := ws.spendsCoinbase
  sigopCost := ws.sigopCost
  lockPoints := ws.lockPoints
  countWithAncestors := st.count
  sizeWithAncestors := st.size
  feesWithAncestors := st.fees
  sigopsWithAncestors := st.sigops
  countWithDescendants := 1
  sizeWithDescendants := ws.vsize
  feesWithDescendants := ws.modifiedFee
  parents := HashSet.empty.extend (arena.parentIds ws.tx)
  children := .empty
  cachedAncestorKey := ⟨(0, 1), env.computeTxid ws.tx⟩
  cachedDescendantKey := ⟨(0, 1), ctx.currentTime⟩

/-- The statistics of a new entry, itself included. -/
def ancestorState (arena : MemPoolArena) (ws : ValidationWorkspace) :
    Outcome MempoolError AncestorState :=
  ((arena.ancestorsOf m.order ws.tx).iter m.order).foldlM (addAncestor build arena)
    ⟨1, ws.vsize, ws.modifiedFee, ws.sigopCost⟩

/-- The insertion into the arena, and the updates of the ancestors. Every ancestor gets the new
entry as a child, and both kinds of statistics. -/
def insertEntry (arena : MemPoolArena) (ws : ValidationWorkspace) (ctx : EntryContext) :
    Outcome MempoolError (EntryId × MemPoolArena) := do
  let ancestors := (arena.ancestorsOf m.order ws.tx).iter m.order
  let st ← ancestorState build m arena ws
  let (id, arena) ← arena.insert env build (entryOf env arena ws ctx st)
  let arena := ancestors.foldl (fun arena parentId => arena.insertChild parentId id) arena
  let feeDelta := toSigned 64 ws.modifiedFee
  let arena ← ancestors.foldlM
    (fun arena ancestorId =>
      arena.updateAncestorState env build ancestorId ws.vsize feeDelta 1 ws.sigopCost) arena
  let arena ← ancestors.foldlM
    (fun arena ancestorId => arena.updateDescendantState build ancestorId ws.vsize feeDelta 1)
    arena
  pure (id, arena)

/-- `map_next_tx` with the outpoints that a transaction spends. -/
def spend (mapNextTx : OutPoint → Option Txid) (tx : Transaction) : OutPoint → Option Txid :=
  tx.spends.foldl
    (fun map outpoint => Function.update map outpoint (some (env.computeTxid tx))) mapNextTx

/-- The part of `finalize_tx` up to the statistics. -/
def insertInto (inner : MemPoolInner) (ws : ValidationWorkspace) (ctx : EntryContext) :
    Outcome MempoolError (EntryId × MemPoolInner) := do
  let (id, arena) ← insertEntry env build m inner.arena ws ctx
  let totalTxSize ← build.add 64 inner.totalTxSize ws.txWeight
  pure (id,
    { inner with
      arena := arena
      mapNextTx := spend env inner.mapNextTx ws.tx
      totalTxSize := totalTxSize })

/-- The removal of what the transaction replaces. -/
def removeReplaced (conflictSet : Option ConflictSet) : Stateful MemPool MempoolError Unit :=
  match conflictSet with
  | none => pure ()
  | some conflictSet => do
    Stateful.update fun p => do
      let inner ← p.inner.removeStaged env build m.order conflictSet.allConflicts true
      pure { p with inner := inner }
    Stateful.modify fun p =>
      { p with
        coinsCache := conflictSet.removedTransactions.foldl (CoinsViewCache.removeMempoolTx env)
          p.coinsCache }

/-- `finalize_tx`. When the fees overflow, the entry stays. -/
def finalizeTx (ws : ValidationWorkspace) (ctx : EntryContext) :
    Stateful MemPool MempoolError EntryId := do
  removeReplaced env build m ws.conflictSet
  let p ← Stateful.get
  let (id, inner) ← Stateful.lift (insertInto env build m p.inner ws ctx)
  Stateful.modify fun p =>
    { p with inner := inner, coinsCache := p.coinsCache.addMempoolCoins env ws.tx }
  let totalFee ← Stateful.lift
    (Outcome.okOr (checkedUnsigned 64 (inner.totalFee + ws.baseFee)) .feeOverflow)
  Stateful.modify fun p =>
    { p with
      inner.totalFee := totalFee
      inner.unbroadcast := p.inner.unbroadcast.insert (env.computeTxid ws.tx) }
  pure id

/-! ## Packages -/

/-- The last transaction of a list with a txid, as the map of the package holds it. -/
def txMap (transactions : List Transaction) : Txid → Option Transaction :=
  Lookup.collect env.computeTxid transactions

/-- The dependencies within a package: parent and child, one for each input. -/
def packageEdges (transactions : List Transaction) : List (Txid × Txid) :=
  transactions.flatMap fun tx =>
    (tx.spends.filter fun outpoint => (txMap env transactions outpoint.txid).isSome).map
      fun outpoint => (outpoint.txid, env.computeTxid tx)

/-- `topological_sort_package`. -/
def topologicalSortPackage (transactions : List Transaction) :
    Outcome MempoolError (List Transaction) := do
  let edges := packageEdges env transactions
  let txids := HashSet.empty.extend (transactions.map env.computeTxid)
  let sources := (txids.iter m.order).filter fun txid => Kahn.inDegree edges txid = 0
  let sorted ← (Kahn.sort edges txids.elems sources).mapM fun txid =>
    Outcome.expect (txMap env transactions txid) "txid must exist"
  Outcome.errIf (sorted.length ≠ transactions.length) .packageCyclicDependencies
  pure sorted

/-- The output an input of a package member spends: of the package, of an entry, or of a coin. -/
def packageInput (inner : MemPoolInner) (packageOutputs : OutPoint → Option TxOut)
    (outpoint : OutPoint) : Stateful CoinsViewCache MempoolError TxOut :=
  match packageOutputs outpoint, inner.arena.getByTxid outpoint.txid with
  | some output, _ => pure output
  | none, some parentId =>
    Stateful.lift <|
      Outcome.okOr ((inner.get parentId).bind fun parent => parent.tx.output[outpoint.vout]?)
        (.missingInputs [outpoint.txid])
  | none, none => do
    let coin ← CoinsViewCache.getInputCoin env m.client outpoint
    pure coin.output

/-- Fee and size of a package so far. -/
structure PackageTotals where
  fee : Nat
  vsize : Int

/-- A member of the package is added up. -/
def addPackageTx (inner : MemPoolInner) (packageOutputs : OutPoint → Option TxOut)
    (acc : PackageTotals) (tx : Transaction) :
    Stateful CoinsViewCache MempoolError PackageTotals := do
  let vsize ← Stateful.lift (Outcome.okOr
    (checkedSigned 64 (acc.vsize + toSigned 64 (toVbytesCeil (env.txWeight tx)))) .feeOverflow)
  let inputValue ← Stateful.fold
    (fun value outpoint => do
      let output ← packageInput env m inner packageOutputs outpoint
      Stateful.lift (Outcome.okOr (checkedUnsigned 64 (value + output.value)) .feeOverflow))
    0 tx.spends
  Stateful.lift do
    let outputValue ← sumOutputs build tx.output
    Outcome.errIf (inputValue < outputValue) .negativeFee
    let fee ← Outcome.okOr (checkedUnsigned 64 (acc.fee + (inputValue - outputValue))) .feeOverflow
    pure ⟨fee, vsize⟩

/-- `calculate_package_feerate`, the fee rate it returns. -/
def calculatePackageFeerate (inner : MemPoolInner) (sortedTxs : List Transaction) :
    Stateful CoinsViewCache MempoolError FeeRate := do
  let outputs := sortedTxs.flatMap fun tx => CoinsViewCache.outpointsOf (env.computeTxid tx) tx
  let packageOutputs := fun outpoint => (Lookup.collect Prod.fst outputs outpoint).map Prod.snd
  let totals ← Stateful.fold (addPackageTx env build m inner packageOutputs) ⟨0, 0⟩ sortedTxs
  Stateful.lift do
    Outcome.errIf (totals.vsize = 0) (.packageSizeTooLarge 0)
    let scaled ← Outcome.okOr (checkedUnsigned 64 (totals.fee * 1000)) .feeOverflow
    pure ⟨scaled / toUnsigned 64 totals.vsize⟩

/-- `pre_validate_package_tx`, in a workspace of the transaction. A fee that is too low is
forgiven when the package pays enough; the workspace then is as the failed check left it. -/
def preValidatePackageTx (inner : MemPoolInner) (currentHeight : Nat) (currentMtp : Int)
    (packageFeerate : FeeRate) : Stateful Checking MempoolError ValidationWorkspace := do
  Stateful.rescue (preChecks env build options m inner currentHeight currentMtp) fun e =>
    match e with
    | .feeTooLow _ _ =>
      if options.minRelayFeeRate.satPerKvb ≤ packageFeerate.satPerKvb then pure ()
      else Stateful.fail e
    | _ => Stateful.fail e
  checkLimitsAndScripts env build options m inner
  let st ← Stateful.get
  pure st.ws

/-- Checks of a transaction, from a new workspace, with the coins of the mempool. -/
def withWorkspace {α : Type} (tx : Transaction) (x : Stateful Checking MempoolError α) :
    Stateful MemPool MempoolError α :=
  Stateful.zoom (fun p : MemPool => (⟨.new env tx, p.coinsCache⟩ : Checking))
    (fun st p => { p with coinsCache := st.coins }) x

/-- Phase 1 of `validate_package`, after the workspaces `done`. The outputs of a checked
transaction are visible to the next ones, and taken back when one of them fails. -/
def validateAll (currentHeight : Nat) (currentMtp : Int) (packageFeerate : FeeRate) :
    List ValidationWorkspace → List Transaction →
      Stateful MemPool MempoolError (List ValidationWorkspace)
  | done, [] => pure done
  | done, tx :: rest => do
    let p ← Stateful.get
    let ws ← Stateful.rescue
      (withWorkspace env tx
        (preValidatePackageTx env build options m p.inner currentHeight currentMtp packageFeerate))
      fun e => do
        Stateful.modify fun p =>
          { p with
            coinsCache := (done.map ValidationWorkspace.tx).foldl
              (CoinsViewCache.removeMempoolTx env) p.coinsCache }
        Stateful.fail (.packageTxValidationFailed (env.computeTxid tx) e.display)
    Stateful.modify fun p => { p with coinsCache := p.coinsCache.addMempoolCoins env ws.tx }
    validateAll currentHeight currentMtp packageFeerate (done ++ [ws]) rest

/-- Phase 2 of `validate_package`. -/
def finalizeAll : EntryContext → List ValidationWorkspace → Stateful MemPool MempoolError Unit
  | _, [] => pure ()
  | ctx, ws :: rest => do
    let _ ← finalizeTx env build m ws ctx
    let sequence ← Stateful.lift (build.add 64 ctx.sequence 1)
    finalizeAll { ctx with sequence := sequence } rest

/-- `bitcoin_block_hash_for` of the best block, or zeros. -/
def entryBlockHash (bestBlock : H256) : BlockHash :=
  (m.client.bitcoinBlockHashFor bestBlock).getD .allZeros

/-- The checks of `validate_package` on the package as a whole. -/
def checkPackage (transactions : List Transaction) :
    Outcome MempoolError (List Transaction) := do
  Outcome.errIf (options.maxPackageCount < transactions.length)
    (.packageTooLarge transactions.length options.maxPackageCount)
  let totalVsize ← transactions.foldlM
    (fun acc tx => build.add 64 acc (toVbytesCeil (env.txWeight tx))) 0
  Outcome.errIf (options.maxPackageVsize < totalVsize) (.packageSizeTooLarge totalVsize)
  topologicalSortPackage env m transactions

/-- `validate_package`. The median time past of the entries is the time it is given. -/
def validatePackage (transactions : List Transaction) (currentHeight : Nat) (bestBlock : H256)
    (currentTime : Int) (sequenceStart : Nat) :
    Stateful MemPool MempoolError PackageValidationResult := do
  let sortedTxs ← Stateful.lift (checkPackage env build options m transactions)
  let p ← Stateful.get
  let packageFeerate ← Stateful.zoom MemPool.coinsCache
    (fun coins p => { p with coinsCache := coins })
    (calculatePackageFeerate env build m p.inner sortedTxs)
  Stateful.lift (Outcome.errIf
    (packageFeerate.satPerKvb < options.minRelayFeeRate.satPerKvb)
    (.packageFeeTooLow ("package feerate " ++ packageFeerate.debug ++ " < min " ++
      options.minRelayFeeRate.debug)))
  let workspaces ← validateAll env build options m currentHeight currentTime packageFeerate []
    sortedTxs
  finalizeAll env build m
    { currentHeight := currentHeight
      currentTime := currentTime
      entryBlockMtp := currentTime
      entryBlockHash := entryBlockHash m bestBlock
      sequence := sequenceStart } workspaces
  pure ⟨workspaces.map fun ws => env.computeTxid ws.tx, packageFeerate⟩

end

end Subcoin.Mempool
