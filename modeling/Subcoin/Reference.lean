import Subcoin.Lib.Codec
import Subcoin.Nakamoto.HeaderVerify

/-!
# Subcoin — a reference instance of the libraries

An instance of `NodeEnv` that can be evaluated. Sizes, targets, work, signature operation counts
and the encodings of headers and calls are computed as the libraries compute them; the hash
functions are replaced by a polynomial digest, and the script interpreters by one that knows
scripts consisting of a single constant. The codecs carry their round trips, and
`output_length_le_baseSize` is the size bound that proofs about the runtime ask for.
-/

namespace Subcoin.Reference

/-! ## Encodings -/

def varInt (n : Nat) : List UInt8 :=
  if n < 0xfd then leBytes 1 n
  else if n < 2 ^ 16 then 0xfd :: leBytes 2 n
  else if n < 2 ^ 32 then 0xfe :: leBytes 4 n
  else 0xff :: leBytes 8 n

def varBytes (l : List UInt8) : List UInt8 := varInt l.length ++ l

def inputBytes (txin : TxIn) : List UInt8 :=
  txin.previousOutput.txid.hash.bytes ++ leBytes 4 txin.previousOutput.vout ++
    varBytes txin.scriptSig ++ leBytes 4 txin.sequence

def outputBytes (txout : TxOut) : List UInt8 := leBytes 8 txout.value ++ varBytes txout.scriptPubkey

def transactionBytes (tx : Transaction) : List UInt8 :=
  leBytes 4 (tx.version % 2 ^ 32).toNat ++ varInt tx.input.length ++
    tx.input.flatMap inputBytes ++ varInt tx.output.length ++ tx.output.flatMap outputBytes ++
    leBytes 4 tx.lockTime.toConsensusU32

def headerCodec : Codec Header :=
  (Codec.word32.prod (Codec.hash256.prod (Codec.hash256.prod
    (Codec.word32.prod (Codec.word32.prod Codec.word32))))).map
    (fun (version, prev, root, time, bits, nonce) =>
      ⟨⟨version⟩, ⟨prev⟩, ⟨root⟩, time, bits, nonce⟩)
    (fun h =>
      (h.version.toUInt32, h.prevBlockhash.hash, h.merkleRoot.hash, h.time, h.bits, h.nonce))
    (fun _ => rfl)

def bytesCodec : Codec (List UInt8) := Codec.byte.list

def intCodec : Codec Int :=
  (Codec.nat.sum Codec.nat).map
    (fun | .inl n => Int.ofNat n | .inr n => Int.negSucc n)
    (fun | .ofNat n => .inl n | .negSucc n => .inr n)
    (fun i => by cases i <;> rfl)

def lockTimeCodec : Codec Pallet.LockTime :=
  (Codec.nat.sum Codec.nat).map
    (fun | .inl n => .height n | .inr n => .time n)
    (fun | .height n => .inl n | .time n => .inr n)
    (fun t => by cases t <;> rfl)

def inputCodec : Codec Pallet.TxIn :=
  ((bytesCodec.prod Codec.nat).sum
    ((Codec.hash256.prod Codec.nat).prod (bytesCodec.prod (Codec.nat.prod bytesCodec.list)))).map
    (fun
      | .inl (data, sequence) => .coinbase data sequence
      | .inr ((txid, vout), script, sequence, witness) =>
        .regular ⟨⟨⟨txid⟩, vout⟩, script, sequence, witness⟩)
    (fun
      | .coinbase data sequence => .inl (data, sequence)
      | .regular t =>
        .inr ((t.previousOutput.txid.h256, t.previousOutput.vout), t.unlockingScript, t.sequence,
          t.witness))
    (fun t => by cases t <;> rfl)

def outputCodec : Codec Pallet.TxOut :=
  (Codec.nat.prod bytesCodec).map (fun (value, script) => ⟨value, script⟩)
    (fun t => (t.value, t.scriptPubkey)) (fun _ => rfl)

def callCodec : Codec RuntimeCall :=
  ((intCodec.prod (lockTimeCodec.prod (inputCodec.list.prod outputCodec.list))).sum
      Codec.byte).map
    (fun
      | .inl (version, lockTime, input, output) => .transact ⟨version, lockTime, input, output⟩
      | .inr _ => .other)
    (fun
      | .transact t => .inl (t.version, t.lockTime, t.input, t.output)
      | .other => .inr 0)
    (fun call => by cases call <;> rfl)

/-! ## Hashes -/

/-- A digest below `2 ^ 200`, never zero. -/
def digest (l : List UInt8) : Nat :=
  l.foldl (fun acc b => (acc * 257 + b.toNat + 1) % (2 ^ 200 - 1)) 0 + 1

def hash (l : List UInt8) : Hash256 := Hash256.ofNat (digest l)

def blockHash (h : Header) : BlockHash := ⟨hash (headerCodec.encode h)⟩

/-! ## Targets and work -/

def targetFromCompact (bits : Nat) : Nat :=
  let mantissa := bits % 2 ^ 24
  let exponent := bits / 2 ^ 24
  if 0x7fffff < mantissa then 0
  else if exponent ≤ 3 then mantissa >>> (8 * (3 - exponent))
  else mantissa <<< (8 * (exponent - 3)) % 2 ^ 256

def toCompactLossy (target : Nat) : Nat :=
  let size := ((if target = 0 then 0 else target.log2 + 1) + 7) / 8
  let compact := if size ≤ 3 then target <<< (8 * (3 - size)) else target >>> (8 * (size - 3))
  if compact / 2 ^ 23 % 2 = 1 then compact / 2 ^ 8 + (size + 1) * 2 ^ 24
  else compact + size * 2 ^ 24

def toWork (target : Nat) : BitVec 256 :=
  if target ≤ 1 then BitVec.allOnes 256
  else BitVec.ofNat 256 ((2 ^ 256 - 1 - target) / (target + 1) + 1)

def validatePow (h : Header) (target : Nat) : Except ValidationError BlockHash :=
  if target ≠ targetFromCompact h.bits.toNat then .error .badTarget
  else if ofLeBytes (blockHash h).hash.bytes ≤ target then .ok (blockHash h)
  else .error .badProofOfWork

/-! ## Signature operations -/

/-- The first instruction of a script: a push of bytes, or an opcode, and what follows it. -/
def nextInstruction : List UInt8 → Option ((List UInt8 ⊕ UInt8) × List UInt8)
  | [] => none
  | b :: l =>
    let push (skip n : Nat) :=
      if skip + n ≤ l.length then some (Sum.inl ((l.drop skip).take n), l.drop (skip + n)) else none
    if b ≤ 75 then push 0 b.toNat
    else if b = 0x4c then push 1 (ofLeBytes (l.take 1))
    else if b = 0x4d then push 2 (ofLeBytes (l.take 2))
    else if b = 0x4e then push 4 (ofLeBytes (l.take 4))
    else some (.inr b, l)

/-- `Script::count_sigops`, and its legacy form when `accurate` is false. `pushnum` is the number
the previous instruction pushed. -/
def countSigops (accurate : Bool) : Nat → Option Nat → List UInt8 → Nat
  | 0, _, _ => 0
  | fuel + 1, pushnum, script =>
    match nextInstruction script with
    | none => 0
    | some (.inl _, rest) => countSigops accurate fuel none rest
    | some (.inr op, rest) =>
      if op = 0xac || op = 0xad then 1 + countSigops accurate fuel pushnum rest
      else if op = 0xae || op = 0xaf then
        (if accurate then pushnum.getD 20 else 20) + countSigops accurate fuel pushnum rest
      else
        countSigops accurate fuel
          (if 0x51 ≤ op && op ≤ 0x60 then some (op.toNat - 0x50) else none) rest

def lastPush : Nat → Option (List UInt8) → List UInt8 → Option (List UInt8)
  | 0, last, _ => last
  | fuel + 1, last, script =>
    match nextInstruction script with
    | none => last
    | some (.inl data, rest) => lastPush fuel (some data) rest
    | some (.inr _, rest) => lastPush fuel none rest

def isP2sh (script : List UInt8) : Bool :=
  script.length = 23 && script.take 2 = [0xa9, 0x14] && script.getLast? = some 0x87

def countP2shSigops (tx : Transaction) (spent : OutPoint → Option TxOut) : Nat :=
  if tx.isCoinbase then 0
  else
    (tx.input.map fun txin =>
      match spent txin.previousOutput with
      | some txout =>
        if isP2sh txout.scriptPubkey then
          let redeem := (lastPush txin.scriptSig.length none txin.scriptSig).getD []
          countSigops true redeem.length none redeem
        else 0
      | none => 0).sum

def countWitnessSigops (tx : Transaction) (spent : OutPoint → Option TxOut) : Nat :=
  if tx.isCoinbase then 0
  else
    (tx.input.map fun txin =>
      match spent txin.previousOutput with
      | some txout =>
        if txout.scriptPubkey.length = 22 && txout.scriptPubkey.take 2 = [0, 20] then 1
        else if txout.scriptPubkey.length = 34 && txout.scriptPubkey.take 2 = [0, 32] then
          let script := txin.witness.getLast?.getD []
          countSigops true script.length none script
        else 0
      | none => 0).sum

def countSigopsLegacy (script : List UInt8) : Nat := countSigops false script.length none script

def countLegacySigops (tx : Transaction) : Nat :=
  (tx.input.map fun txin => countSigopsLegacy txin.scriptSig).sum +
    (tx.output.map fun txout => countSigopsLegacy txout.scriptPubkey).sum

/-! ## Sizes -/

def baseSize (tx : Transaction) : Nat :=
  4 + varIntSize tx.input.length +
    (tx.input.map fun txin =>
      32 + 4 + varIntSize txin.scriptSig.length + txin.scriptSig.length + 4).sum +
    varIntSize tx.output.length +
    (tx.output.map fun txout =>
      8 + varIntSize txout.scriptPubkey.length + txout.scriptPubkey.length).sum + 4

theorem output_length_le_baseSize (tx : Transaction) : tx.output.length ≤ baseSize tx := by
  have hsum : tx.output.length ≤ (tx.output.map fun txout : TxOut =>
      8 + varIntSize txout.scriptPubkey.length + txout.scriptPubkey.length).sum := by
    induction tx.output with
    | nil => simp
    | cons txout outs ih =>
      simp only [List.length_cons, List.map_cons, List.sum_cons]
      omega
  rw [baseSize]
  omega

def witnessSize (tx : Transaction) : Nat :=
  (tx.input.map fun txin =>
    varIntSize txin.witness.length +
      (txin.witness.map fun item => varIntSize item.length + item.length).sum).sum

def weight (block : Block) : Nat :=
  4 * (headerSize + varIntSize block.txdata.length + (block.txdata.map baseSize).sum) +
    (block.txdata.map witnessSize).sum

/-! ## Scripts -/

/-- Evaluation of a script that is one constant: `OP_1` to `OP_16` succeed, everything else
fails. -/
def evalConstant : List UInt8 → Bool
  | [op] => 0x51 ≤ op && op ≤ 0x60
  | _ => false

/-- `Block::bip34_block_height`, on coinbase scripts that start with a push. -/
def bip34BlockHeight (block : Block) : Except Bip34Error Nat :=
  if block.header.version < 2 then .error .unsupported
  else
    match block.txdata.head?.bind fun tx => tx.input.head? with
    | none => .error .notPresent
    | some txin =>
      match nextInstruction txin.scriptSig with
      | some (.inl data, _) => .ok (ofLeBytes data)
      | _ => .error .notPresent

/-! ## The instance -/

def env : NodeEnv Unit where
  txidHash tx := ⟨hash (transactionBytes tx)⟩
  blockHash := blockHash
  targetFromCompact := targetFromCompact
  toCompactLossy := toCompactLossy
  toWork := toWork
  validatePow := validatePow
  calculateRoot txids :=
    if txids.isEmpty then none else some ⟨hash (txids.flatMap fun txid => txid.hash.bytes)⟩
  checkWitnessCommitment block :=
    block.txdata.all fun tx => tx.input.all fun txin => txin.witness.isEmpty
  weight := weight
  baseSize := baseSize
  bip34BlockHeight := bip34BlockHeight
  countSigopsLegacy := countSigopsLegacy
  totalSigopCost tx spent :=
    countLegacySigops tx * 4 + countP2shSigops tx spent * 4 + countWitnessSigops tx spent
  consensusEncode := transactionBytes
  verifyWithFlags script _ _ _ _ :=
    if evalConstant script then .ok () else .error .errScript
  verifyScript _ script _ _ _ _ _ := if evalConstant script then .ok () else .err ()
  headerHash hd :=
    hash (hd.parentHash.bytes ++ leBytes 4 hd.number ++ hd.stateRoot.bytes ++
      hd.extrinsicsRoot.bytes ++ hd.digest.flatMap fun
        | .preRuntime engine data => 6 :: (engine ++ data)
        | .consensus engine data => 4 :: (engine ++ data)
        | .seal engine data => 5 :: (engine ++ data)
        | .other data => 0 :: data
        | .runtimeEnvironmentUpdated => [8])
  orderedTrieRoot l := hash (l.flatMap varBytes)
  storageRoot st := hash (leBytes 8 st.coinsCount)
  encodeHeader := headerCodec.encode
  decodeHeader l :=
    match headerCodec.decode l with
    | some (h, _) => .ok h
    | none => .error "unexpected end of file"
  encodeExtrinsic call := ⟨callCodec.encode call⟩
  decodeExtrinsic ext := (callCodec.decode ext.bytes).map Prod.fst

theorem decodeHeader_encodeHeader (h : Header) : env.decodeHeader (env.encodeHeader h) = .ok h := by
  simp [env, headerCodec.decode_encode_self]

theorem decodeExtrinsic_encodeExtrinsic (call : RuntimeCall) :
    env.decodeExtrinsic (env.encodeExtrinsic call) = some call := by
  simp [env, callCodec.decode_encode_self]

/-! ## Consensus parameters -/

/-- `bitcoin::consensus::Params` of each network. -/
def paramsOf : Network → Params
  | .bitcoin =>
    { bip34Height := 227931, bip65Height := 388381, bip66Height := 363725
      maxAttainableTarget := 0xffff <<< 208, powTargetSpacing := 600
      powTargetTimespan := 1209600, noPowRetargeting := false }
  | .testnet =>
    { bip34Height := 21111, bip65Height := 581885, bip66Height := 330776
      maxAttainableTarget := 0xffff <<< 208, powTargetSpacing := 600
      powTargetTimespan := 1209600, noPowRetargeting := false }
  | .signet =>
    { bip34Height := 1, bip65Height := 1, bip66Height := 1
      maxAttainableTarget := 0x0377ae <<< 216, powTargetSpacing := 600
      powTargetTimespan := 1209600, noPowRetargeting := false }
  | .regtest =>
    { bip34Height := 100000000, bip65Height := 1351, bip66Height := 1251
      maxAttainableTarget := 0x7fffff <<< 232, powTargetSpacing := 600
      powTargetTimespan := 1209600, noPowRetargeting := true }

/-! ## Blocks -/

def coinbase (script : List UInt8) (value : Nat) : Transaction :=
  { version := 1
    lockTime := LockTime.zero
    input := [⟨OutPoint.null, script, 0xffffffff, []⟩]
    output := [⟨value, [0x51]⟩] }

def transaction (input : List TxIn) (output : List TxOut) : Transaction :=
  { version := 1, lockTime := LockTime.zero, input := input, output := output }

def input (o : OutPoint) (script : List UInt8) : TxIn := ⟨o, script, 0xffffffff, []⟩

def block (prev : BlockHash) (time bits nonce : UInt32) (txs : List Transaction) : Block :=
  { header :=
      { version := 1
        prevBlockhash := prev
        merkleRoot := (env.calculateRoot (txs.map env.computeTxid)).getD ⟨default⟩
        time := time
        bits := bits
        nonce := nonce }
    txdata := txs }

/-- The genesis block of the main network, over the reference hashes. -/
def genesisBlock : Block :=
  block BlockHash.allZeros 1231006505 0x1d00ffff 2083236893
    [coinbase [4, 0xff, 0xff, 0, 29] 5000000000]

end Subcoin.Reference
