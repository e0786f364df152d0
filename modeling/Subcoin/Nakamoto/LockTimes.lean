import Subcoin.Nakamoto.HeaderTime
import Subcoin.Nakamoto.Storage

/-!
# Subcoin — lock times of accepted blocks

What full verification says about the lock times of a block, absolute (`isFinalTx`) and relative
(BIP 68).

* **`accepted_transactions_final_iff`** — every transaction but the first is final, since the loop
  of `verify_transactions` leaves the coinbase before the finality check.
* **`accepted_sequence_locks_iff`** — no check reads a sequence number for its relative lock. Of
  the locks BIP 68 puts on an accepted block, coinbase maturity covers those of at most 100 blocks
  on coinbase coins, and the others hold or not as the block was made.
-/

namespace Subcoin

variable {SE : Type} {nenv : NodeEnv SE} {v : BlockVerifier} {build : Build} {c : Client}
  {now blockNumber : Nat} {block : Block}

/-! ## Finality -/

namespace TxsContext

variable {env : Env SE} {ctx : TxsContext}

theorem isFinalTx_of_verifyTransactions (hctx : ctx.TxidsComplete env)
    (h : ctx.verifyTransactions env = .ok ()) {pre post : List Transaction} {tx : Transaction}
    (hsplit : ctx.block.txdata = pre ++ tx :: post) (hne : pre ≠ []) :
    isFinalTx tx ctx.blockNumber ctx.lockTimeCutoff = true := by
  simp only [verifyTransactions, Outcome.bind_eq_ok] at h
  obtain ⟨s, hloop, _⟩ := h
  rw [hsplit] at hloop
  obtain ⟨s1, s2, _, hstep, _⟩ := Loop.forEnum_split hloop
  have hindex : pre.length ≠ 0 := by simpa using hne
  rw [checkBlockTransaction, if_neg hindex] at hstep
  exact ((checkTransaction_eq_ok hctx hsplit).mp hstep).1

end TxsContext

/-- The time an absolute lock is compared with, according to its unit. -/
def lockTimeBound (lockTime : LockTime) (height blockTime : Nat) : Nat :=
  match lockTime with
  | .blocks _ _ => height
  | .seconds _ _ => blockTime

theorem isFinalTx_eq_true {tx : Transaction} {height blockTime : Nat} :
    isFinalTx tx height blockTime = true ↔
      tx.lockTime = LockTime.zero ∨
        tx.lockTime.toConsensusU32 < lockTimeBound tx.lockTime height blockTime ∨
        ∀ txin ∈ tx.input, txin.sequence = 2 ^ 32 - 1 := by
  have hbound : (if tx.lockTime.toConsensusU32 < lockTimeThreshold then height else blockTime) =
      lockTimeBound tx.lockTime height blockTime := by
    cases tx.lockTime with
    | blocks n h => exact if_pos h
    | seconds n h => exact if_neg (Nat.not_lt.mpr h)
  unfold isFinalTx
  rw [hbound]
  by_cases hzero : tx.lockTime = LockTime.zero
  · simp [hzero]
  · rw [if_neg hzero]
    by_cases hlt : tx.lockTime.toConsensusU32 < lockTimeBound tx.lockTime height blockTime
    · simp [hlt]
    · simp [hzero, hlt, TxIn.isFinal]

/-- In a fully verified block every transaction is final at the block's height and the cutoff of
the header exactly when the coinbase is: it has no lock time, its lock time has passed, or its
inputs have the final sequence number. -/
theorem accepted_transactions_final_iff (nenv : NodeEnv SE) (v : BlockVerifier) (build : Build)
    (c : Client) (now blockNumber : Nat) (block : Block) (cutoff : Nat)
    (hfull : v.blockVerification = .full)
    (hok : verifyBlock nenv v build c now blockNumber block = .ok ())
    (hcutoff : verifyHeader nenv build c v.chainParams now block.header = .ok cutoff) :
    (∀ tx ∈ block.txdata, isFinalTx tx blockNumber cutoff = true) ↔
      ∀ cb ∈ block.txdata.head?, cb.lockTime = LockTime.zero ∨
        cb.lockTime.toConsensusU32 < lockTimeBound cb.lockTime blockNumber cutoff ∨
        ∀ txin ∈ cb.input, txin.sequence = 2 ^ 32 - 1 := by
  obtain ⟨hsane, cutoff', hheader, htxs⟩ := verifyBlock_full hfull hok
  rw [hcutoff, Outcome.ok.injEq] at hheader
  subst hheader
  obtain ⟨cb, rest, htxdata, _⟩ := hsane.coinbase
  have hrest : ∀ tx ∈ rest, isFinalTx tx blockNumber cutoff = true := by
    intro tx htx
    obtain ⟨pre, post, rfl⟩ := List.append_of_mem htx
    exact TxsContext.isFinalTx_of_verifyTransactions
      (txidsComplete_txsContext nenv v build c blockNumber block cutoff) htxs
      (show block.txdata = (cb :: pre) ++ tx :: post by simpa using htxdata) (by simp)
  rw [htxdata]
  simp only [List.head?_cons, Option.mem_def, Option.some.injEq, forall_eq', List.mem_cons,
    forall_eq_or_imp, @isFinalTx_eq_true cb]
  exact ⟨fun h => h.1, fun h => ⟨h, hrest⟩⟩

namespace LockTimeSample

open Reference

def verifier : BlockVerifier := ⟨ChainParams.new paramsOf .bitcoin, .full, .core⟩

def client : Client := Client.genesis Reference.env genesisBlock Pallet.State.empty

/-- A coinbase locked until block 500 by an input with the given sequence number. -/
def lockedCoinbase (sequence : Nat) : Transaction :=
  { version := 1
    lockTime := .blocks 500 (by decide)
    input := [⟨OutPoint.null, [1, 1], sequence, []⟩]
    output := [⟨5000000000, [0x51]⟩] }

def lockedBlock (sequence : Nat) : Block :=
  Reference.block (Reference.env.hashOf genesisBlock) 1231006600 0x1d00ffff 7
    [lockedCoinbase sequence]

end LockTimeSample

open Reference LockTimeSample in
/-- Block 1 of the main network is accepted with a coinbase that is locked until block 500. -/
theorem locked_coinbase_accepted :
    verifyBlock Reference.env verifier Build.checked client 1231006700 1 (lockedBlock 0) = .ok () ∧
      verifyHeader Reference.env Build.checked client verifier.chainParams 1231006700
        (lockedBlock 0).header = .ok 1231006600 ∧
      ¬ ∀ tx ∈ (lockedBlock 0).txdata, isFinalTx tx 1 1231006600 = true := by
  decide +kernel

open Reference LockTimeSample in
/-- With the final sequence number the lock of the same coinbase is void. -/
theorem transactions_final_lockedBlock :
    verifyBlock Reference.env verifier Build.checked client 1231006700 1 (lockedBlock 0xffffffff) =
        .ok () ∧
      ∀ tx ∈ (lockedBlock 0xffffffff).txdata, isFinalTx tx 1 1231006600 = true := by
  have hok : verifyBlock Reference.env verifier Build.checked client 1231006700 1
      (lockedBlock 0xffffffff) = .ok () := by
    decide +kernel
  refine ⟨hok, ?_⟩
  exact (accepted_transactions_final_iff Reference.env verifier Build.checked client 1231006700 1
    (lockedBlock 0xffffffff) 1231006600 rfl hok (by decide +kernel)).mpr (by decide +kernel)

/-! ## Relative locks -/

/-- The block `k` steps above `h` on its own branch. -/
def ancestorHash (nenv : NodeEnv SE) (c : Client) : Nat → BlockHash → Option BlockHash
  | 0, h => some h
  | k + 1, h => (c.blockHeader nenv h).bind fun header =>
    ancestorHash nenv c k header.prevBlockhash

/-- BIP 68 for one lock, on a coin of height `coinHeight` that a block numbered `blockNumber` on
top of `parent` spends. A time lock runs from the median time past of the block before the coin's
to that of the parent. -/
def LockSatisfied (nenv : NodeEnv SE) (c : Client) (parent : BlockHash)
    (blockNumber coinHeight : Nat) : RelativeLockTime → Prop
  | .blocks n => coinHeight + n ≤ blockNumber
  | .time n => ∃ h start now,
      ancestorHash nenv c (blockNumber - 1 - (coinHeight - 1)) parent = some h ∧
        c.calculateMedianTimePast nenv h = some start ∧
        c.calculateMedianTimePast nenv parent = some now ∧ start + 512 * n ≤ now

/-- `P` holds of every relative lock of a block, with the origin and height of the coin it is on:
the enabled locks of the transactions of version 2 or higher, the coinbase apart. -/
def EachLock (nenv : NodeEnv SE) (build : Build) (c : Client) (blockNumber : Nat) (block : Block)
    (P : Bool → Nat → RelativeLockTime → Prop) : Prop :=
  ∀ pre tx post, block.txdata = pre ++ tx :: post → pre ≠ [] → 2 ≤ tx.version →
    ∀ txin ∈ tx.input, ∀ lock, toRelativeLockTime txin.sequence = some lock →
      ∀ txout isCoinbase height,
        coinBefore nenv.toEnv (utxoView build c blockNumber) blockNumber pre txin.previousOutput =
          some (txout, isCoinbase, height) →
        P isCoinbase height lock

/-- The locks that coinbase maturity implies. -/
def CoveredByMaturity (blockNumber : Nat) (isCoinbase : Bool) (height : Nat) :
    RelativeLockTime → Prop
  | .blocks n => isCoinbase = true ∧ height ≤ blockNumber ∧ n ≤ coinbaseMaturity
  | .time _ => False

theorem TxsContext.Matured.lockSatisfied {ctx : TxsContext} {height n : Nat}
    (h : ctx.Matured height) (hheight : height ≤ ctx.blockNumber) (hn : n ≤ coinbaseMaturity) :
    height + n ≤ ctx.blockNumber := by
  obtain ⟨age, hsub, hage⟩ := h
  rw [Build.sub_of_le hheight, Outcome.ok.injEq] at hsub
  omega

/-- The locks of an accepted block that maturity covers are satisfied. -/
theorem eachLock_covered (hfull : v.blockVerification = .full)
    (hok : verifyBlock nenv v build c now blockNumber block = .ok ()) (parent : BlockHash) :
    EachLock nenv build c blockNumber block fun isCoinbase height lock =>
      CoveredByMaturity blockNumber isCoinbase height lock →
        LockSatisfied nenv c parent blockNumber height lock := by
  obtain ⟨_, cutoff, _, htxs⟩ := verifyBlock_full hfull hok
  intro pre tx post hsplit hne _ txin htxin lock _ txout isCoinbase height hcoin hcovered
  have hacc := (TxsContext.verifyTransactions_spec
    (txidsComplete_txsContext nenv v build c blockNumber block cutoff) htxs).1 hsplit hne
  obtain ⟨l, l', hinput⟩ := List.append_of_mem htxin
  obtain ⟨out, hin⟩ := hacc.inputs hinput
  obtain ⟨cb, h, hcoin', hmature⟩ := hin.spends
  -- the coin whose maturity was checked is the coin of the lock
  have hsame : some (out, cb, h) = some (txout, isCoinbase, height) := hcoin'.symm.trans hcoin
  simp only [Option.some.injEq, Prod.mk.injEq] at hsame
  obtain ⟨rfl, rfl, rfl⟩ := hsame
  cases lock with
  | blocks n => exact (hmature hcovered.1).lockSatisfied hcovered.2.1 hcovered.2.2
  | time n => exact hcovered.elim

/-- A fully verified block satisfies BIP 68 exactly when it does so on the locks that coinbase
maturity does not cover. -/
theorem accepted_sequence_locks_iff (nenv : NodeEnv SE) (v : BlockVerifier) (build : Build)
    (c : Client) (now blockNumber : Nat) (block : Block) (hfull : v.blockVerification = .full)
    (hok : verifyBlock nenv v build c now blockNumber block = .ok ()) :
    (EachLock nenv build c blockNumber block fun _ height lock =>
        LockSatisfied nenv c block.header.prevBlockhash blockNumber height lock) ↔
      EachLock nenv build c blockNumber block fun isCoinbase height lock =>
        ¬ CoveredByMaturity blockNumber isCoinbase height lock →
          LockSatisfied nenv c block.header.prevBlockhash blockNumber height lock := by
  have hcovered := eachLock_covered hfull hok block.header.prevBlockhash
  constructor
  · intro h pre tx post hsplit hne hversion txin htxin lock hlock txout cb height hcoin _
    exact h pre tx post hsplit hne hversion txin htxin lock hlock txout cb height hcoin
  · intro h pre tx post hsplit hne hversion txin htxin lock hlock txout cb height hcoin
    by_cases hc : CoveredByMaturity blockNumber cb height lock
    · exact hcovered pre tx post hsplit hne hversion txin htxin lock hlock txout cb height hcoin hc
    · exact h pre tx post hsplit hne hversion txin htxin lock hlock txout cb height hcoin hc

namespace SequenceSample

open Reference CoinbaseSample

def verifier : BlockVerifier := ⟨ChainParams.new paramsOf .regtest, .full, .core⟩

def coinAt : OutPoint := ⟨⟨Hash256.ofNat 77⟩, 0⟩

/-- A state with one coin, created at height 0. -/
def state : Pallet.State :=
  { coins := (∅ : Pallet.Coins).insert (Runtime.OutPoint.ofBitcoin coinAt) ⟨false, 1000, 0, [0x51]⟩
    coinsCount := 1 }

def ground : Block :=
  Reference.block (Reference.env.hashOf genesisBlock) 1231006600 0x207fffff 7
    [coinbase [1, 1] 5000000000]

/-- Spends the coin under a relative lock of so many blocks. -/
def lockedSpend (blocks : Nat) : Transaction :=
  { version := 2
    lockTime := LockTime.zero
    input := [⟨coinAt, [], blocks, []⟩]
    output := [⟨900, [0x51]⟩] }

def lockedBlock (blocks : Nat) : Block :=
  Reference.block (Reference.env.hashOf ground) 1231006700 0x207fffff 8
    [coinbase [1, 2] 5000000000, lockedSpend blocks]

/-- A regtest node that has imported both blocks, without verifying them. -/
def node (blocks : Nat) : Option Client :=
  importBlocks Reference.env importer Build.checked 1231006800
    (Client.genesis Reference.env genesisBlock state) [ground, lockedBlock blocks]

/-- What the node finds when it verifies the second block, the median of the branch apart. -/
def Checks (blocks : Nat) (c : Client) : Prop :=
  let block := lockedBlock blocks
  checkBlockSanity Reference.env.toEnv 2 block =
      .ok (block.txdata.map Reference.env.computeTxid) ∧
    c.blockHeader Reference.env block.header.prevBlockhash = some ground.header ∧
    c.blockNumber block.header.prevBlockhash = some 1 ∧
    headerChecks Reference.env Build.checked verifier.chainParams 1231006800 2 block.header
      (Reference.env.target ground.header) = .ok () ∧
    c.collectTimestamps Reference.env Client.medianTimeSpan (Reference.env.hashOf block) =
      some [1231006700, 1231006600, 1231006505] ∧
    Reference.env.checkWitnessCommitment block = true ∧
    Reference.env.weight block ≤ maxBlockWeight ∧
    (c.hash 1).isSome = true ∧
    (txsContext Reference.env verifier Build.checked c 2 block 1231006600).verifyTransactions
      Reference.env.toEnv = .ok () ∧
    coinBefore Reference.env.toEnv (utxoView Build.checked c 2) 2 [coinbase [1, 2] 5000000000]
      coinAt = some (⟨1000, [0x51]⟩, false, 0)

instance (blocks : Nat) (c : Client) : Decidable (Checks blocks c) :=
  inferInstanceAs (Decidable (_ ∧ _))

variable {blocks : Nat} {c : Client}

theorem Checks.coin (h : Checks blocks c) :
    coinBefore Reference.env.toEnv (utxoView Build.checked c 2) 2 [coinbase [1, 2] 5000000000]
      coinAt = some (⟨1000, [0x51]⟩, false, 0) :=
  h.2.2.2.2.2.2.2.2.2

theorem medianOf_branch :
    Client.medianOf [1231006700, 1231006600, 1231006505] = some 1231006600 :=
  medianOf_eq_some.mpr ⟨[1231006505, 1231006600, 1231006700], by decide, by decide, rfl⟩

theorem Checks.verifyBlock (h : Checks blocks c) :
    verifyBlock Reference.env verifier Build.checked c 1231006800 2 (lockedBlock blocks) =
      .ok () := by
  obtain ⟨hsanity, hlast, hn, hchecks, htimes, hwit, hweight, hparent, htxs, _⟩ := h
  have hzero : Reference.env.hashOf (lockedBlock blocks) ≠ BlockHash.allZeros := by
    intro h0
    rw [h0] at htimes
    cases htimes
  have hmtp : c.calculateMedianTimePast Reference.env (Reference.env.hashOf (lockedBlock blocks)) =
      some 1231006600 := by
    rw [calculateMedianTimePast_of_ne_zero hzero, htimes, Option.bind_some, medianOf_branch]
  have hheader : verifyHeader Reference.env Build.checked c verifier.chainParams 1231006800
      (lockedBlock blocks).header = .ok 1231006600 := by
    rw [verifyHeader_eq_bind hlast hn]
    show (do
      headerChecks Reference.env Build.checked verifier.chainParams 1231006800 2
        (lockedBlock blocks).header (Reference.env.target ground.header)
      lockTimeCutoff Reference.env c verifier.chainParams 2 (lockedBlock blocks).header) = _
    rw [hchecks, Outcome.ok_bind]
    unfold lockTimeCutoff
    rw [if_pos (by decide)]
    show (Outcome.expect (c.calculateMedianTimePast Reference.env
      (Reference.env.hashOf (lockedBlock blocks))) _ >>= _) = _
    rw [hmtp]
    rfl
  exact (verifyBlock_full_iff rfl).mpr
    ⟨hsanity, 1231006600, hheader, fun _ => hwit, hweight, ⟨1, rfl, hparent⟩, htxs⟩

/-- The second block has one input that can be locked. -/
theorem eachLock_lockedBlock {P : Bool → Nat → RelativeLockTime → Prop}
    (hcoin : coinBefore Reference.env.toEnv (utxoView Build.checked c 2) 2 [coinbase [1, 2]
      5000000000] coinAt = some (⟨1000, [0x51]⟩, false, 0)) :
    EachLock Reference.env Build.checked c 2 (lockedBlock blocks) P ↔
      ∀ lock, toRelativeLockTime blocks = some lock → P false 0 lock := by
  constructor
  · intro h lock hlock
    exact h [coinbase [1, 2] 5000000000] (lockedSpend blocks) [] rfl (by simp) le_rfl
      ⟨coinAt, [], blocks, []⟩ (List.mem_singleton.mpr rfl) lock hlock _ _ _ hcoin
  · intro h pre tx post hsplit hne _ txin htxin lock hlock txout cb height hcoin'
    have htxs : [coinbase [1, 2] 5000000000, lockedSpend blocks] = pre ++ tx :: post := hsplit
    obtain ⟨rfl, rfl, _⟩ | ⟨post', _, hl⟩ :=
      Loop.split_snoc (show [coinbase [1, 2] 5000000000] ++ [lockedSpend blocks] =
        pre ++ tx :: post from htxs)
    · have hin : txin = ⟨coinAt, [], blocks, []⟩ := List.mem_singleton.mp htxin
      subst hin
      have hsame := hcoin.symm.trans hcoin'
      simp only [Option.some.injEq, Prod.mk.injEq] at hsame
      obtain ⟨_, rfl, rfl⟩ := hsame
      exact h lock hlock
    · -- the coinbase is the first transaction, and only it
      cases pre with
      | nil => exact absurd rfl hne
      | cons a pre => simp at hl

end SequenceSample

open Reference SequenceSample in
/-- Past the CSV height of a regtest node, block 2 passes although it spends a coin of height 0
under a relative lock of ten blocks. -/
theorem locked_spend_accepted :
    ∃ c, node 10 = some c ∧ verifier.chainParams.csvHeight ≤ 2 ∧
      verifyBlock Reference.env verifier Build.checked c 1231006800 2 (lockedBlock 10) = .ok () ∧
      ¬ EachLock Reference.env Build.checked c 2 (lockedBlock 10) fun _ height lock =>
        LockSatisfied Reference.env c (lockedBlock 10).header.prevBlockhash 2 height lock := by
  have hcheck : (node 10).any (fun c => decide (Checks 10 c)) = true := by decide +kernel
  obtain ⟨c, hc, hacc⟩ := (Option.any_eq_true _ _).mp hcheck
  have h := of_decide_eq_true hacc
  refine ⟨c, hc, by decide, h.verifyBlock, ?_⟩
  rw [eachLock_lockedBlock h.coin]
  intro hall
  have hlock : 0 + 10 ≤ 2 := hall (.blocks 10) (by decide)
  omega

open Reference SequenceSample in
/-- A lock of two blocks is satisfied in block 2. -/
theorem sequence_locks_lockedBlock :
    ∃ c, node 2 = some c ∧
      EachLock Reference.env Build.checked c 2 (lockedBlock 2) fun _ height lock =>
        LockSatisfied Reference.env c (lockedBlock 2).header.prevBlockhash 2 height lock := by
  have hcheck : (node 2).any (fun c => decide (Checks 2 c)) = true := by decide +kernel
  obtain ⟨c, hc, hacc⟩ := (Option.any_eq_true _ _).mp hcheck
  have h := of_decide_eq_true hacc
  refine ⟨c, hc, (accepted_sequence_locks_iff Reference.env verifier Build.checked c 1231006800 2
    (lockedBlock 2) rfl h.verifyBlock).mpr ?_⟩
  rw [eachLock_lockedBlock h.coin]
  intro lock hlock _
  have hblocks : some (RelativeLockTime.blocks 2) = some lock := hlock
  rw [Option.some.injEq] at hblocks
  subst hblocks
  exact le_rfl

end Subcoin
