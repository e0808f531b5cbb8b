import MxSdk.Account.Address
import MxSdk.Internal.BigUInt
import MxSdk.Lib.Straightline
import MxSdk.Wrappers.JsonWrapper

/-! transaction/transaction.cpp without the signatures. A shared pointer is an
`Option`, as no method writes to what one points to. -/

namespace MxSdk
open Straightline

/-! params.h -/

def txNonce : Bytes := ascii "nonce"
def txValue : Bytes := ascii "value"
def txReceiver : Bytes := ascii "receiver"
def txSender : Bytes := ascii "sender"
def txReceiverName : Bytes := ascii "receiverUsername"
def txSenderName : Bytes := ascii "senderUsername"
def txGasPrice : Bytes := ascii "gasPrice"
def txGasLimit : Bytes := ascii "gasLimit"
def txData : Bytes := ascii "data"
def txChainId : Bytes := ascii "chainID"
def txVersion : Bytes := ascii "version"
def txSignature : Bytes := ascii "signature"
def txOptions : Bytes := ascii "options"

structure Transaction where
  nonce : UInt64
  value : BigUInt
  receiver : Option Address
  sender : Option Address
  receiverUserName : Option Bytes
  senderUserName : Option Bytes
  gasPrice : UInt64
  gasLimit : UInt64
  data : Option Bytes
  signature : Option Bytes
  chainId : Bytes
  version : UInt64
  options : Option UInt32
  deriving DecidableEq

namespace Transaction

def default : Transaction where
  nonce := 0
  value := .ofUInt64 0
  receiver := none
  sender := none
  receiverUserName := none
  senderUserName := none
  gasPrice := 0
  gasLimit := 0
  data := none
  signature := none
  chainId := ascii "1"
  version := 1
  options := none

def pointersHaveSameValue {α : Type} (same : α → α → Bool) : Option α → Option α → Bool
  | none, none => true
  | some v1, some v2 => same v1 v2
  | _, _ => false

def equals (t rhs : Transaction) : Bool :=
  t.nonce == rhs.nonce &&
  t.value.equals rhs.value &&
  pointersHaveSameValue Address.equals t.sender rhs.sender &&
  pointersHaveSameValue Address.equals t.receiver rhs.receiver &&
  pointersHaveSameValue (· == ·) t.senderUserName rhs.senderUserName &&
  pointersHaveSameValue (· == ·) t.receiverUserName rhs.receiverUserName &&
  t.gasPrice == rhs.gasPrice &&
  t.gasLimit == rhs.gasLimit &&
  pointersHaveSameValue (· == ·) t.data rhs.data &&
  pointersHaveSameValue (· == ·) t.signature rhs.signature &&
  t.chainId == rhs.chainId &&
  t.version == rhs.version &&
  pointersHaveSameValue (· == ·) t.options rhs.options

section Json
variable {α : Type}

def setJsonValueIfNotNull (json : OrderedJson) (ty : JsonType α) (key : Bytes) :
    Option α → Except Exception OrderedJson
  | some val => json.set ty key val
  | none => .ok json

/-- A check at the start of `deserialize`. -/
def require (json : OrderedJson) (key what : Bytes) : Statement Exception Transaction :=
  if json.contains key then .ok id else .error (.invalidArgument what)

/-- The assignment of a computed value to a member. -/
def store (x : Except Exception α) (set : α → Transaction → Transaction) :
    Statement Exception Transaction := x.map set

def getJsonValueIfNotNull (json : OrderedJson) (ty : JsonType α) (key : Bytes)
    (set : α → Transaction → Transaction) : Statement Exception Transaction :=
  if json.contains key then store (json.at ty key) set else .ok id

variable [Platform]

def serialize (t : Transaction) : Except Exception Bytes := do
  let some receiver := t.receiver | throw (.invalidArgument errorMsgReceiver)
  let some sender := t.sender | throw (.invalidArgument errorMsgSender)
  let json : OrderedJson := .null
  let json ← json.set .uint64 txNonce t.nonce
  let json ← json.set .string txValue t.value.value
  let json ← json.set .string txReceiver receiver.bech32Address
  let json ← json.set .string txSender sender.bech32Address
  let json ← setJsonValueIfNotNull json .bytes txReceiverName t.receiverUserName
  let json ← setJsonValueIfNotNull json .bytes txSenderName t.senderUserName
  let json ← json.set .uint64 txGasPrice t.gasPrice
  let json ← json.set .uint64 txGasLimit t.gasLimit
  let json ← setJsonValueIfNotNull json .bytes txData t.data
  let json ← setJsonValueIfNotNull json .string txSignature t.signature
  let json ← json.set .string txChainId t.chainId
  let json ← json.set .uint64 txVersion t.version
  let json ← setJsonValueIfNotNull json .uint32 txOptions t.options
  json.serialize

/-- The statements of `deserialize` once the text was parsed. -/
def statements (json : OrderedJson) : List (Statement Exception Transaction) :=
  [require json txNonce errorMsgNonce,
    require json txValue errorMsgValue,
    require json txReceiver errorMsgReceiver,
    require json txSender errorMsgSender,
    require json txGasPrice errorMsgGasPrice,
    require json txGasLimit errorMsgGasLimit,
    require json txChainId errorMsgChainId,
    require json txVersion errorMsgVersion,
    store (json.at .uint64 txNonce) fun nonce t => { t with nonce },
    store (json.at .string txValue >>= BigUInt.ofString) fun value t => { t with value },
    store (json.at .string txReceiver >>= Address.ofBech32Address)
      fun receiver t => { t with receiver := some receiver },
    store (json.at .string txSender >>= Address.ofBech32Address)
      fun sender t => { t with sender := some sender },
    store (json.at .uint64 txGasPrice) fun gasPrice t => { t with gasPrice },
    store (json.at .uint64 txGasLimit) fun gasLimit t => { t with gasLimit },
    store (json.at .string txChainId) fun chainId t => { t with chainId },
    store (json.at .uint64 txVersion) fun version t => { t with version },
    getJsonValueIfNotNull json .bytes txData fun data t => { t with data := some data },
    getJsonValueIfNotNull json .string txSignature
      fun signature t => { t with signature := some signature },
    getJsonValueIfNotNull json .bytes txReceiverName
      fun name t => { t with receiverUserName := some name },
    getJsonValueIfNotNull json .bytes txSenderName
      fun name t => { t with senderUserName := some name },
    getJsonValueIfNotNull json .uint32 txOptions
      fun options t => { t with options := some options }]

/-- The outcome, and the object as the call leaves it. -/
def deserialize (t : Transaction) (serializedTransaction : Bytes) :
    Except Exception Unit × Transaction :=
  match OrderedJson.deserialize serializedTransaction with
  | .error e => (.error e, t)
  | .ok json => exec (statements json) t

end Json

end Transaction

end MxSdk
