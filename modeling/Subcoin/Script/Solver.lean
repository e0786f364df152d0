import Subcoin.Script.Checker

/-!
# Subcoin — output types

`solve` recognises the standard forms of an output script. The iterator over the instructions of a
script yields an error in the place of the first malformed one and nothing after it.
-/

namespace Subcoin.Script

inductive TxoutType where
  | nonStandard
  | anchor
  | pubKey (key : PublicKey)
  | pubKeyHash (hash : List UInt8)
  | scriptHash (hash : List UInt8)
  | multisig (requiredSigs keysCount : Nat) (keys : List (List UInt8))
  | nullData
  | witnessV0ScriptHash (program : List UInt8)
  | witnessV0KeyHash (program : List UInt8)
  | witnessV1Taproot (program : List UInt8)
  | witnessUnknown (solutions : List (List UInt8))
deriving DecidableEq, Repr

def decodePushnum (opcode : UInt8) : Option Nat :=
  if 0x51 ≤ opcode && opcode ≤ 0x60 then some (opcode.toNat - 0x50) else none

/-- What `Script::instructions` yields, with `none` for an error. -/
def instructionStream (script : List UInt8) : List (Option Instruction) :=
  (instructions script).map some ++
    if (instructionIndices false script).error.isSome then [none] else []

/-- The loop over the keys of a bare multisig script: the keys and what the iterator has left,
unless the number after the keys is not theirs. -/
def collectKeys : List (List UInt8) → List (Option Instruction) →
    Option (List (List UInt8) × List (Option Instruction))
  | keys, [] => some (keys, [])
  | keys, none :: rest => some (keys, rest)
  | keys, some (.pushBytes key) :: rest => collectKeys (keys ++ [key]) rest
  | keys, some (.op op) :: rest =>
    match decodePushnum op with
    | some pushnum => if pushnum ≠ keys.length then none else some (keys, rest)
    | none => some (keys, rest)

/-- What has to follow the keys: `OP_CHECKMULTISIG` if it is an opcode at all, and then nothing. -/
def endsMultisig : List (Option Instruction) → Bool
  | some (.op op) :: rest => op = 0xae && rest.isEmpty
  | _ :: rest => rest.isEmpty
  | [] => false

def matchMultisig {ε : Type} (scriptPubkey : List UInt8) :
    Outcome ε (Option (Nat × Nat × List (List UInt8))) :=
  match instructionStream scriptPubkey with
  | some (.op op) :: rest =>
    match decodePushnum op, collectKeys [] rest with
    | some requiredSigs, some (keys, rest) =>
      if 2 ^ 8 ≤ keys.length then
        .panic "Must fit into u8 due to the MAX_PUBKEYS_PER_MULTISIG limit; qed"
      else if requiredSigs ≤ keys.length && endsMultisig rest then
        .ok (some (requiredSigs, keys.length, keys))
      else .ok none
    | _, _ => .ok none
  | _ => .ok none

/-- `is_pay_to_anchor`. -/
def isPayToAnchor (script : List UInt8) : Bool := script = [0x51, 0x02, 0x4e, 0x73]

/-- `Script::is_p2pkh`: `OP_DUP OP_HASH160`, a push of 20 bytes, `OP_EQUALVERIFY OP_CHECKSIG`. -/
def isP2pkh (script : List UInt8) : Bool :=
  script.length = 25 && script.take 3 = [0x76, 0xa9, 0x14] && script.drop 23 = [0x88, 0xac]

/-- The output type of a script with a witness version. -/
def solveWitness (scriptPubkey : List UInt8) (version : Nat) : TxoutType :=
  let program := scriptPubkey.drop 2
  if version = 0 && program.length = 20 then .witnessV0KeyHash program
  else if version = 0 && program.length = 32 then .witnessV0ScriptHash program
  else if version = 1 && program.length = 32 then .witnessV1Taproot program
  else if isPayToAnchor scriptPubkey then .anchor
  else if version ≠ 0 then .witnessUnknown [[UInt8.ofNat version], program]
  else .nonStandard

/-- `p2pkPublicKey` is `Script::p2pk_public_key`. -/
def solve {ε : Type} (p2pkPublicKey : List UInt8 → Option PublicKey) (scriptPubkey : List UInt8) :
    Outcome ε TxoutType :=
  if isP2sh scriptPubkey then .ok (.scriptHash ((scriptPubkey.drop 2).take 20))
  else
    match witnessVersion scriptPubkey with
    | some version => .ok (solveWitness scriptPubkey version)
    | none =>
      if scriptPubkey.head? = some 0x6a then .ok .nullData
      else
        match p2pkPublicKey scriptPubkey with
        | some key => .ok (.pubKey key)
        | none =>
          if isP2pkh scriptPubkey then .ok (.pubKeyHash ((scriptPubkey.drop 3).take 20))
          else do
            match ← matchMultisig scriptPubkey with
            | some (requiredSigs, keysCount, keys) => pure (.multisig requiredSigs keysCount keys)
            | none => pure .nonStandard

end Subcoin.Script
