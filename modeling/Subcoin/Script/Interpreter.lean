import Subcoin.Bitcoin.Env
import Subcoin.Script.Eval

/-!
# Subcoin — the script interpreter

`verify_script` with its parts: the evaluation of the two scripts on one stack, witness programs
bare and inside P2SH, the two paths of Taproot and the checks at the end. A witness is a list of
byte strings whose last element is the top of its stack.
-/

namespace Subcoin.Script

/-- `Witness::size`: the length of the serialized witness. -/
def witnessSize (witness : List (List UInt8)) : Nat :=
  varIntSize witness.length +
    (witness.map fun element => varIntSize element.length + element.length).sum

/-- `is_op_success`. -/
def isOpSuccess (opcode : UInt8) : Bool := opcode = 0x50 || (0x7b ≤ opcode && opcode ≤ 0xb9)

def parseWitnessProgram (scriptPubkey : List UInt8) : Outcome Error (Option WitnessProgram) :=
  match witnessVersion scriptPubkey with
  | none => .ok none
  | some version =>
    -- A script with a witness version has at least four bytes, so the slice is within it.
    match WitnessProgram.new version (scriptPubkey.drop 2) with
    | .ok program => .ok (some program)
    | .error (.invalidLength _) | .error (.invalidSegwitV0Length _) =>
      .err .witnessProgramWrongLength

variable (env : ScriptEnv) (flags : VerifyFlags) (checker : SignatureChecker)

/-! ## Witness scripts -/

/-- The loop over the instructions of a leaf script: `true` when an `OP_SUCCESSx` ends it. -/
def scanInstructions : List Instruction → Outcome Error Bool
  | [] => .ok false
  | .op code :: l =>
    if isOpSuccess code then
      if flags.has .discourageOpSuccess then .err .discourageOpSuccess else .ok true
    else scanInstructions l
  | .pushBytes _ :: _ => .err .badOpcode

/-- The scan with the malformed instruction at its end. -/
def scanOpSuccess (script : List UInt8) : Outcome Error Bool := do
  let success ← scanInstructions flags (instructions script)
  if success then pure true
  else do
    readError (instructionIndices false script).error
    pure false

/-- The part of `execute_witness_script` for Tapscript: `true` when it returns from there. -/
def tapscriptChecks (sigVersion : SigVersion) (stack : Stack) (script : List UInt8) :
    Outcome Error Bool :=
  if sigVersion = .tapscript then do
    let success ← scanOpSuccess flags script
    if success then pure true
    else do
      Outcome.errIf (maxStackSize < stack.length) .stackSize
      pure false
  else pure false

/-- The evaluation of a witness script requires minimal numbers whatever the flags. -/
def witnessContext (sigVersion : SigVersion) (script : List UInt8) : EvalContext :=
  { env := env
    script := script
    flags := flags
    checker := checker
    sigVersion := sigVersion
    verifyMinimaldata := true }

/-- The part of `execute_witness_script` that evaluates the script. -/
def evalWitnessScript (stack : Stack) (script : List UInt8) (sigVersion : SigVersion)
    (execData : ScriptExecutionData) : Outcome Error Unit := do
  Outcome.errIf (stack.any fun element => maxScriptElementSize < element.length) .pushSize
  let result ← evalScript (witnessContext env flags checker sigVersion script) stack execData
  -- Scripts inside witness implicitly require cleanstack behavior.
  Outcome.errIf (result.stack.length ≠ 1) .cleanStack
  Outcome.errIf (!topIsTrue result.stack) .evalFalse

def executeWitnessScript (stack : Stack) (script : List UInt8) (sigVersion : SigVersion)
    (execData : ScriptExecutionData) : Outcome Error Unit := do
  let success ← tapscriptChecks flags sigVersion stack script
  if success then pure () else evalWitnessScript env flags checker stack script sigVersion execData

/-! ## Witness programs -/

/-- BIP 141 P2WSH: the program is the hash of the witness script on the top. -/
def verifyP2wsh (program : List UInt8) (witnessStack : Stack) : Outcome Error Unit :=
  match witnessStack with
  | [] => .err .witnessProgramWitnessEmpty
  | script :: rest => do
    Outcome.errIf ((env.sha256 script).bytes ≠ program) .witnessProgramMismatch
    executeWitnessScript env flags checker rest script .witnessV0 {}

/-- `OP_DUP OP_HASH160 program OP_EQUALVERIFY OP_CHECKSIG`. -/
def pubkeyHashScript (program : List UInt8) : List UInt8 :=
  [0x76, 0xa9] ++ pushSlice program ++ [0x88, 0xac]

/-- BIP 141 P2WPKH: the program is the hash of the public key. -/
def verifyP2wpkh (program : List UInt8) (witnessStack : Stack) : Outcome Error Unit := do
  Outcome.errIf (witnessStack.length ≠ 2) .witnessProgramMismatch
  executeWitnessScript env flags checker witnessStack (pubkeyHashScript program) .witnessV0 {}

/-- The annex: the last of at least two elements, when it starts with the tag. -/
def takeAnnex (witnessStack : Stack) : ScriptExecutionData × Stack :=
  match witnessStack with
  | annex :: x :: rest =>
    if annex.head? = some taprootAnnexPrefix then
      ({ annexInit := true
         annexPresent := true
         annexHash := env.sha256 annex
         annex := some annex }, x :: rest)
    else ({ annexInit := true }, annex :: x :: rest)
  | _ => ({ annexInit := true }, witnessStack)

/-- Key path spending. The answer of the checker is not looked at. -/
def verifyKeyPath (program sig : List UInt8) (execData : ScriptExecutionData) :
    Outcome Error Unit := do
  let sig ← Outcome.ofExcept .schnorrSignature (env.schnorrFromSlice sig)
  let pubkey ← Outcome.ofExcept .secp256k1 (env.xOnlyFromSlice program)
  let _ ← (checker.checkSchnorrSignature sig pubkey .taproot execData).mapErr .signature
  pure ()

/-- The length of a control block is wrong. -/
def wrongControlSize (control : List UInt8) : Bool :=
  control.length < taprootControlBaseSize || taprootControlMaxSize < control.length ||
    (control.length - taprootControlBaseSize) % taprootControlNodeSize ≠ 0

/-- The execution data of a leaf script. -/
def leafData (witness : List (List UInt8)) (script : List UInt8) (leafVersion : LeafVersion)
    (execData : ScriptExecutionData) : ScriptExecutionData :=
  { execData with
    tapleafHash := env.tapLeafHash script leafVersion
    tapleafHashInit := true
    validationWeightLeft := witnessSize witness + validationWeightOffset
    validationWeightLeftInit := true }

/-- The leaf script, once the commitment is verified. -/
def executeLeaf (leafVersion : UInt8) (stack : Stack) (script : List UInt8)
    (execData : ScriptExecutionData) : Outcome Error Unit :=
  if leafVersion = taprootLeafTapscript then
    executeWitnessScript env flags checker stack script .tapscript execData
  else
    Outcome.errIf (flags.has .discourageUpgradableTaprootVersion)
      .discourageUpgradableTaprootVersion

/-- Script path spending. -/
def verifyScriptPath (witness : List (List UInt8)) (program control script : List UInt8)
    (stack : Stack) (execData : ScriptExecutionData) : Outcome Error Unit := do
  Outcome.errIf (wrongControlSize control) .taprootWrongControlSize
  let first ← byteAt control 0
  let leafVersion ← Outcome.expect (LeafVersion.fromConsensus (first &&& taprootLeafMask))
    "Failed to compute leaf version"
  let controlBlock ← Outcome.ofExcept .taproot (env.decodeControlBlock control)
  let outputKey ← Outcome.ofExcept .secp256k1 (env.xOnlyFromSlice program)
  Outcome.errIf (!env.verifyTaprootCommitment controlBlock outputKey script) .witnessProgramMismatch
  executeLeaf env flags checker (first &&& taprootLeafMask) stack script
    (leafData env witness script leafVersion execData)

/-- The two paths, on the stack without the annex. -/
def verifyPath (witness : List (List UInt8)) (program : List UInt8)
    (execData : ScriptExecutionData) : Stack → Outcome Error Unit
  | [] => .err (.stack .invalidOperation)
  | [sig] => verifyKeyPath env checker program sig execData
  | control :: script :: stack =>
    verifyScriptPath env flags checker witness program control script stack execData

/-- BIP 341 Taproot. -/
def verifyTaproot (witness : List (List UInt8)) (program : List UInt8) : Outcome Error Unit :=
  if flags.has .taproot then do
    Outcome.errIf witness.isEmpty .witnessProgramWitnessEmpty
    let (execData, stack) := takeAnnex env witness.reverse
    verifyPath env flags checker witness program execData stack
  else pure ()

def verifyWitnessProgram (witness : List (List UInt8)) (witnessProgram : WitnessProgram)
    (isP2sh : Bool) : Outcome Error Unit :=
  let program := witnessProgram.program
  if witnessProgram.version = 0 then
    if program.length = witnessV0ScripthashSize then
      verifyP2wsh env flags checker program witness.reverse
    else if program.length = witnessV0KeyhashSize then
      verifyP2wpkh env flags checker program witness.reverse
    else
      .panic <| "internal error: entered unreachable code: " ++
        "Witness program length must be correct as checked in WitnessProgram::new(); qed"
  else if witnessProgram.version = 1 && program.length = witnessV0TaprootSize && !isP2sh then
    verifyTaproot env flags checker witness program
  else
    -- Other combinations are left to future soft forks.
    Outcome.errIf (flags.has .discourageUpgradableWitnessProgram)
      .discourageUpgradableWitnessProgram

/-! ## Scripts -/

def baseContext (script : List UInt8) : EvalContext :=
  { env := env
    script := script
    flags := flags
    checker := checker
    sigVersion := .base
    verifyMinimaldata := flags.has .minimaldata }

/-- The evaluation of a pre-segwit script: the stack it leaves. -/
def evalBase (script : List UInt8) (stack : Stack) : Outcome Error Stack := do
  let result ← evalScript (baseContext env flags checker script) stack {}
  pure result.stack

def requireTrue (stack : Stack) : Outcome Error Unit :=
  Outcome.errIf (!topIsTrue stack) .evalFalse

/-- A bare witness program. The result says whether there was one. -/
def verifyBareWitness (scriptSig scriptPubkey : List UInt8) (witness : List (List UInt8))
    (stack : Stack) : Outcome Error (Bool × Stack) :=
  if flags.has .witness then do
    let witnessProgram ← parseWitnessProgram scriptPubkey
    match witnessProgram with
    | none => pure (false, stack)
    | some witnessProgram => do
      Outcome.errIf (!scriptSig.isEmpty) .witnessMalleated
      verifyWitnessProgram env flags checker witness witnessProgram false
      -- Bypass the cleanstack check at the end.
      pure (true, stack.truncate 1)
  else pure (false, stack)

/-- A witness program inside P2SH. -/
def verifyP2shWitness (scriptSig redeemScript : List UInt8) (witness : List (List UInt8))
    (hadWitness : Bool) (stack : Stack) : Outcome Error (Bool × Stack) :=
  if flags.has .witness then do
    let witnessProgram ← parseWitnessProgram redeemScript
    match witnessProgram with
    | none => pure (hadWitness, stack)
    | some witnessProgram => do
      let pushBytes ← Outcome.expect (pushBytesBuf redeemScript)
        "Failed to convert pubkey to PushBytes"
      -- The script sig must be exactly a single push of the redeem script.
      Outcome.errIf (scriptSig ≠ pushSlice pushBytes) .witnessMalleatedP2sh
      verifyWitnessProgram env flags checker witness witnessProgram true
      pure (true, stack.truncate 1)
  else pure (hadWitness, stack)

/-- The validation of spend-to-script-hash transactions, from the stack the script sig left. -/
def verifyP2sh (scriptSig scriptPubkey : List UInt8) (witness : List (List UInt8))
    (stackCopy : Stack) (hadWitness : Bool) (stack : Stack) : Outcome Error (Bool × Stack) :=
  if flags.has .p2sh && isP2sh scriptPubkey then do
    Outcome.errIf (!isPushOnly scriptSig) .sigPushOnly
    Outcome.assertTrue (!stackCopy.isEmpty) "assertion failed: !stack.is_empty()"
    let (redeemScript, stack) ← Outcome.ofExcept .stack stackCopy.pop
    let stack ← evalBase env flags checker redeemScript stack
    requireTrue stack
    verifyP2shWitness env flags checker scriptSig redeemScript witness hadWitness stack
  else pure (hadWitness, stack)

def checkCleanStack (stack : Stack) : Outcome Error Unit :=
  if flags.has .cleanstack then do
    Outcome.assertTrue (flags.has .p2sh && flags.has .witness) "Disallow CLEANSTACK without P2SH"
    Outcome.errIf (stack.length ≠ 1) .cleanStack
  else pure ()

def checkWitnessExpected (hadWitness : Bool) (witness : List (List UInt8)) : Outcome Error Unit :=
  if flags.has .witness then do
    Outcome.assertTrue (flags.has .p2sh) "assertion failed: flags.verify_p2sh()"
    Outcome.errIf (!hadWitness && !witness.isEmpty) .witnessUnexpected
  else pure ()

def verifyScript (scriptSig scriptPubkey : List UInt8) (witness : List (List UInt8)) :
    Outcome Error Unit := do
  Outcome.errIf (flags.has .sigpushonly && !isPushOnly scriptSig) .sigPushOnly
  -- The two scripts are evaluated one after the other on the same stack, see CVE-2010-5141.
  let stackCopy ← evalBase env flags checker scriptSig []
  let stack ← evalBase env flags checker scriptPubkey stackCopy
  requireTrue stack
  let (hadWitness, stack) ←
    verifyBareWitness env flags checker scriptSig scriptPubkey witness stack
  let (hadWitness, stack) ←
    verifyP2sh env flags checker scriptSig scriptPubkey witness stackCopy hadWitness stack
  checkCleanStack flags stack
  checkWitnessExpected flags hadWitness witness

end Subcoin.Script
