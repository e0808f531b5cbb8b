import Mathlib.Data.List.Sort
import MxSdk.Account.Account
import MxSdk.Transaction.Signing
import MxSdk.Transaction.GasEstimator
import MxSdk.Wrappers.HttpWrapper

/-! provider/proxyprovider.cpp: the requests to the gateway, and what is read from the
answers. Every request is its question followed by the reading of one answer. -/

namespace MxSdk

namespace Json

/-- `items()`. The members of an object come in the order of their keys, an array has its
indices for keys, and a value that is neither is its only item. -/
def items : Json → List (Bytes × Json)
  | null => []
  | object members => members.insertionSort fun a b => a.1 ≤ b.1
  | array elements => elements.zipIdx.map fun (value, i) => (Decimal.decimal i, value)
  | j => [([], j)]

def numberExpected (j : Json) : Exception :=
  .typeError 302
    (ascii "[json.exception.type_error.302] type must be number, but is " ++ j.typeName)

variable [Platform]

def fromJsonUInt64 (j : Json) : Except Exception UInt64 :=
  match j.getUInt64 with
  | some n => .ok n
  | none => throw j.numberExpected

def fromJsonUInt32 (j : Json) : Except Exception UInt32 :=
  match j.getUInt32 with
  | some n => .ok n
  | none => throw j.numberExpected

theorem fromJsonUInt64_ok_iff {j : Json} {n : UInt64} :
    j.fromJsonUInt64 = .ok n ↔ j.getUInt64 = some n := by
  rw [fromJsonUInt64]
  cases j.getUInt64 with
  | none => exact iff_of_false nofun nofun
  | some m => simp

theorem fromJsonUInt32_ok_iff {j : Json} {n : UInt32} :
    j.fromJsonUInt32 = .ok n ↔ j.getUInt32 = some n := by
  rw [fromJsonUInt32]
  cases j.getUInt32 with
  | none => exact iff_of_false nofun nofun
  | some m => simp

end Json

/-- provider/data/data_transaction.cpp -/
structure TransactionStatus where
  status : Bytes
  deriving DecidableEq

namespace TransactionStatus

def isPending (t : TransactionStatus) : Bool := t.status = ascii "pending"

def isInvalid (t : TransactionStatus) : Bool := t.status = ascii "invalid"

def isSuccessful (t : TransactionStatus) : Bool :=
  t.status = ascii "success" || t.status = ascii "successful"

def isExecuted (t : TransactionStatus) : Bool :=
  t.status = ascii "executed" || t.isSuccessful || t.isInvalid

def isFailed (t : TransactionStatus) : Bool :=
  t.status = ascii "fail" || t.status = ascii "failed" || t.status = ascii "unsuccessful" ||
    t.isInvalid

end TransactionStatus

structure ProxyProvider where
  url : Bytes

namespace ProxyProvider
open Http

def readBalance (holder : Json) : Except Exception BigUInt := do
  let balance ← (← requireAttribute holder (ascii "balance")).fromJson
  BigUInt.ofString balance

def readTxHash (result : HttpResult) : Except Exception Bytes := do
  let data ← getPayLoad result
  (← requireAttribute data (ascii "txHash")).fromJson

def readStatus (result : HttpResult) : Except Exception TransactionStatus := do
  let data ← getPayLoad result
  let txStatus ← (← requireAttribute data (ascii "status")).fromJson
  .ok ⟨txStatus⟩

def readESDTBalance (result : HttpResult) : Except Exception BigUInt := do
  let data ← getPayLoad result
  readBalance (← requireAttribute data (ascii "tokenData"))

/-- `std::map::emplace`. -/
def emplace (key : Bytes) (value : BigUInt) (ret : Bytes → Option BigUInt) :
    Bytes → Option BigUInt :=
  if (ret key).isSome then ret else Function.update ret key (some value)

/-- The loop body. -/
def emplaceItem (ret : Bytes → Option BigUInt) (it : Bytes × Json) :
    Except Exception (Bytes → Option BigUInt) := do
  let balance ← readBalance it.2
  .ok (emplace it.1 balance ret)

def readAllESDTBalances (result : HttpResult) : Except Exception (Bytes → Option BigUInt) := do
  let data ← getPayLoad result
  let esdts ← requireAttribute data (ascii "esdts")
  esdts.items.foldlM emplaceItem fun _ => none

section Readers
variable [Platform]

def readAccount (address : Address) (result : HttpResult) : Except Exception Account := do
  let data ← getPayLoad result
  let account ← requireAttribute data (ascii "account")
  let balance ← requireAttribute account (ascii "balance")
  let nonce ← requireAttribute account (ascii "nonce")
  let balance ← balance.fromJson
  let nonce ← nonce.fromJsonUInt64
  .ok ⟨address, ← BigUInt.ofString balance, nonce⟩

def readNetworkConfig (result : HttpResult) : Except Exception NetworkConfig := do
  let data ← getPayLoad result
  let config ← requireAttribute data (ascii "config")
  let chainId ← requireAttribute config (ascii "erd_chain_id")
  let gasPerDataByte ← requireAttribute config (ascii "erd_gas_per_data_byte")
  let minGasLimit ← requireAttribute config (ascii "erd_min_gas_limit")
  let minGasPrice ← requireAttribute config (ascii "erd_min_gas_price")
  .ok {
    chainId := ← chainId.fromJson
    gasPerDataByte := ← gasPerDataByte.fromJsonUInt32
    minGasLimit := ← minGasLimit.fromJsonUInt32
    minGasPrice := ← minGasPrice.fromJsonUInt64 }

end Readers

section Requests
variable [Httplib] {S : Type} (t : ProxyProvider)

def request {α : Type} (path : Bytes) (read : HttpResult → Except Exception α) : Program S α := do
  let client ← Script.lift (Client.new t.url)
  let result ← client.get path
  Script.lift (read result)

def getTransactionStatus (txHash : Bytes) : Program S TransactionStatus :=
  t.request (ascii "/transaction/" ++ txHash ++ ascii "/status") readStatus

def getESDTBalance (address : Address) (token : Bytes) : Program S BigUInt :=
  t.request (ascii "/address/" ++ address.bech32Address ++ ascii "/esdt/" ++ token) readESDTBalance

def getAllESDTBalances (address : Address) : Program S (Bytes → Option BigUInt) :=
  t.request (ascii "/address/" ++ address.bech32Address ++ ascii "/esdt") readAllESDTBalances

variable [Platform]

def getAccount (address : Address) : Program S Account :=
  t.request (ascii "/address/" ++ address.bech32Address) (readAccount address)

def send (transaction : Transaction) : Program S Bytes := do
  let client ← Script.lift (Client.new t.url)
  let message ← Script.lift transaction.serialize
  let result ← client.post (ascii "/transaction/send") message .applicationJson
  Script.lift (readTxHash result)

def getNetworkConfig : Program S NetworkConfig :=
  t.request (ascii "/network/config") readNetworkConfig

end Requests

end ProxyProvider

end MxSdk
