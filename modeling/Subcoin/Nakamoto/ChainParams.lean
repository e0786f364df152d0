import Subcoin.Bitcoin.Types

/-!
# Subcoin — chain parameters

`Params` holds the fields of the `bitcoin` crate's consensus parameters that the node reads;
`ChainParams` extends them with the activation heights and the script flag exceptions.
-/

namespace Subcoin

/-- `bitcoin::Network`, the variants the node supports. -/
inductive Network where
  | bitcoin
  | testnet
  | signet
  | regtest
deriving DecidableEq, Repr

/-- Of rust-bitcoin, what is used here. -/
structure Params where
  bip34Height : Nat
  bip65Height : Nat
  bip66Height : Nat
  maxAttainableTarget : Nat
  powTargetSpacing : Nat
  powTargetTimespan : Nat
  noPowRetargeting : Bool
deriving DecidableEq

namespace Params

def difficultyAdjustmentInterval (params : Params) : Nat :=
  params.powTargetTimespan / params.powTargetSpacing

end Params

/-! ## Script verification flags, as `bitcoinconsensus` numbers them -/

def verifyNone : Nat := 0
def verifyP2sh : Nat := 2 ^ 0
def verifyDersig : Nat := 2 ^ 2
def verifyNulldummy : Nat := 2 ^ 4
def verifyChecklocktimeverify : Nat := 2 ^ 9
def verifyChecksequenceverify : Nat := 2 ^ 10
def verifyWitness : Nat := 2 ^ 11

/-- The parameters of a network. -/
structure ChainParams where
  params : Params
  csvHeight : Nat
  segwitHeight : Nat
  scriptFlagExceptions : List (BlockHash × Nat)
deriving DecidableEq

namespace ChainParams

/-- A block hash from the number its hexadecimal form writes. -/
def blockHashOfHex (n : Nat) : BlockHash := ⟨Hash256.ofNat n⟩

/-- `ChainParams::new`, over the `bitcoin` crate's parameters of each network. -/
def new (paramsOf : Network → Params) (network : Network) : ChainParams :=
  match network with
  | .bitcoin =>
    { params := paramsOf network
      csvHeight := 419328
      segwitHeight := 481824
      scriptFlagExceptions :=
        [ -- BIP16 exception
          (blockHashOfHex 0x00000000000002dc756eebf4f49723ed8d30cc28a5f108eb94b1ba88ac4f9c22,
            verifyNone),
          -- Taproot exception
          (blockHashOfHex 0x0000000000000000000f14c35b2d841e986ab5441de8c585d5ffe55ea1e395ad,
            verifyP2sh ||| verifyWitness)] }
  | .testnet =>
    { params := paramsOf network
      csvHeight := 770112
      segwitHeight := 834624
      scriptFlagExceptions :=
        [ -- BIP16 exception
          (blockHashOfHex 0x00000000dd30457c001f4095d208cc1296b0eed002427aa599874af7a432b105,
            verifyNone)] }
  | .signet =>
    { params := paramsOf network, csvHeight := 1, segwitHeight := 1, scriptFlagExceptions := [] }
  | .regtest =>
    { params := paramsOf network, csvHeight := 1, segwitHeight := 0, scriptFlagExceptions := [] }

end ChainParams

end Subcoin
