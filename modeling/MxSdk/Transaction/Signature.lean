import MxSdk.Transaction.Signer
import MxSdk.Transaction.Transaction
import MxSdk.Utils.Hex

/-! The signatures of transaction/transaction.cpp. What is signed is the text without
the signature, or its digest where version and options ask for that. -/

namespace MxSdk

namespace Transaction

def optionsSignTxHashMask : UInt32 := 1
def versionSignTxHash : UInt64 := 2

def shouldSignHash (tx : Transaction) : Bool :=
  match tx.options with
  | none => false
  | some options => versionSignTxHash ≤ tx.version && options &&& optionsSignTxHashMask ≠ 0

variable [Platform]

def getSerializedTxMsg (tx : Transaction) (withSignature : Bool) : Except Exception Bytes := do
  let tx := if withSignature then tx else { tx with signature := none }
  let txSerialized ← tx.serialize
  .ok (if shouldSignHash tx then Keccak.sha3Keccak txSerialized else txSerialized)

variable [Sodium]

/-- The object after `sign`; an exception leaves it as it was. -/
def sign (t : Transaction) (signer : Signer) : Except Exception Transaction := do
  let txSerialized ← getSerializedTxMsg t false
  let tmpSign := signer.getSignature txSerialized
  let signature := Hex.stringToHex tmpSign
  .ok { t with signature := some signature }

def verify (t : Transaction) : Except Exception Bool := do
  let some signature := t.signature | throw (.runtimeError errorMsgSignature)
  let some sender := t.sender | throw (.runtimeError errorMsgSender)
  let txSerialized ← getSerializedTxMsg t false
  let tmpSign ← Hex.hexToString signature
  .ok (Signer.verify tmpSign txSerialized sender)

end Transaction

end MxSdk
