import MxSdk.Transaction.GasEstimator
import MxSdk.Transaction.PayloadBuilder
import MxSdk.Transaction.Transaction

/-! transaction/itransaction_builder.cpp, transaction/transaction_builders.cpp and
transaction/transaction_factory.cpp. A builder is told its version, options and contract
call in any order and any number of times; the last one of each counts. -/

namespace MxSdk

structure ITransactionBuilder where
  version : UInt64
  options : Option UInt32

namespace ITransactionBuilder

def new : ITransactionBuilder := ⟨Transaction.default.version, Transaction.default.options⟩

def withVersion (t : ITransactionBuilder) (version : UInt64) : ITransactionBuilder :=
  { t with version }

def withOptions (t : ITransactionBuilder) (options : UInt32) : ITransactionBuilder :=
  { t with options := some options }

end ITransactionBuilder

structure ITokenTransactionBuilder extends ITransactionBuilder where
  contractCall : ContractCall

namespace ITokenTransactionBuilder

def new : ITokenTransactionBuilder := ⟨.new, .new []⟩

def withContractCall (t : ITokenTransactionBuilder) (contractCall : ContractCall) :
    ITokenTransactionBuilder := { t with contractCall }

end ITokenTransactionBuilder

inductive BuilderCall where
  | withVersion (version : UInt64)
  | withOptions (options : UInt32)

/-- A call on a builder of token transactions. The arguments of a contract call are
added one after the other. -/
inductive TokenBuilderCall where
  | base (call : BuilderCall)
  | withContractCall (function : Bytes) (args : List SCArgument)

def ITransactionBuilder.call (t : ITransactionBuilder) : BuilderCall → ITransactionBuilder
  | .withVersion version => t.withVersion version
  | .withOptions options => t.withOptions options

def ITokenTransactionBuilder.call (t : ITokenTransactionBuilder) :
    TokenBuilderCall → Except Exception ITokenTransactionBuilder
  | .base call => .ok { t with toITransactionBuilder := t.toITransactionBuilder.call call }
  | .withContractCall function args => do
    let args ← SCArguments.new.addAll args
    .ok (t.withContractCall ⟨function, args⟩)

def ITransactionBuilder.run (t : ITransactionBuilder) (calls : List BuilderCall) :
    ITransactionBuilder := calls.foldl ITransactionBuilder.call t

def ITokenTransactionBuilder.run (t : ITokenTransactionBuilder) (calls : List TokenBuilderCall) :
    Except Exception ITokenTransactionBuilder := calls.foldlM ITokenTransactionBuilder.call t

structure TransactionBuilderInput where
  nonce : UInt64
  value : BigUInt
  sender : Address
  receiver : Address
  data : Bytes
  gasPrice : UInt64
  chainID : Bytes
  gasEstimator : GasEstimator
  gasLimit : UInt64 := Transaction.default.gasLimit

def stringToBytesPtr (input : Bytes) : Option Bytes :=
  if input.isEmpty then Transaction.default.data else some input

/-- `payload.size()`. -/
def stringSize (s : Bytes) : UInt64 := UInt64.ofNat s.length

structure TransactionEGLDTransferBuilder extends ITransactionBuilder where
  txInput : TransactionBuilderInput

def TransactionEGLDTransferBuilder.build (t : TransactionEGLDTransferBuilder) : Transaction :=
  let inputGasLimit := t.txInput.gasLimit
  let estimatedGasLimit := t.txInput.gasEstimator.forEGLDTransfer (stringSize t.txInput.data)
  let gasLimit :=
    if inputGasLimit = Transaction.default.gasLimit then estimatedGasLimit else inputGasLimit
  { nonce := t.txInput.nonce
    value := t.txInput.value
    receiver := some t.txInput.receiver
    sender := some t.txInput.sender
    receiverUserName := Transaction.default.senderUserName
    senderUserName := Transaction.default.receiverUserName
    gasPrice := t.txInput.gasPrice
    gasLimit := gasLimit
    data := stringToBytesPtr t.txInput.data
    signature := Transaction.default.signature
    chainId := t.txInput.chainID
    version := t.version
    options := t.options }

/-- The transaction of a token transfer; the three builders differ in the payload, the gas
limit and the receiver. -/
def tokenTransaction (t : ITokenTransactionBuilder) (txInput : TransactionBuilderInput)
    (receiver : Address) (gasLimit : UInt64) (payload : Bytes) : Transaction where
  nonce := txInput.nonce
  value := Transaction.default.value
  receiver := some receiver
  sender := some txInput.sender
  receiverUserName := Transaction.default.senderUserName
  senderUserName := Transaction.default.receiverUserName
  gasPrice := txInput.gasPrice
  gasLimit := gasLimit
  data := stringToBytesPtr payload
  signature := Transaction.default.signature
  chainId := txInput.chainID
  version := t.version
  options := t.options

structure TransactionESDTBuilder extends ITokenTransactionBuilder where
  txInput : TransactionBuilderInput
  tokenPayment : TokenPayment

def TransactionESDTBuilder.build (t : TransactionESDTBuilder) : Except Exception Transaction := do
  let builder ← ESDTTransferPayloadBuilder.new
  let payload ← ((builder.setPayment t.tokenPayment).withContractCall t.contractCall).build
  let gasLimit := t.txInput.gasEstimator.forESDTTransfer (stringSize payload)
  .ok (tokenTransaction t.toITokenTransactionBuilder t.txInput t.txInput.receiver gasLimit payload)

structure TransactionESDTNFTBuilder extends ITokenTransactionBuilder where
  txInput : TransactionBuilderInput
  tokenPayment : TokenPayment

def TransactionESDTNFTBuilder.build (t : TransactionESDTNFTBuilder) :
    Except Exception Transaction := do
  let builder ← ESDTNFTTransferPayloadBuilder.new
  let payload ← (((builder.setPayment t.tokenPayment).setDestination
    t.txInput.receiver).withContractCall t.contractCall).build
  let gasLimit := t.txInput.gasEstimator.forESDTNFTTransfer (stringSize payload)
  .ok (tokenTransaction t.toITokenTransactionBuilder t.txInput t.txInput.sender gasLimit payload)

structure TransactionMultiESDTNFTBuilder extends ITokenTransactionBuilder where
  txInput : TransactionBuilderInput
  tokenPayments : StdVector TokenPayment

def TransactionMultiESDTNFTBuilder.build (t : TransactionMultiESDTNFTBuilder) :
    Except Exception Transaction := do
  let builder := MultiESDTNFTTransferPayloadBuilder.new
  let payload ← (((builder.setPayments t.tokenPayments).setDestination
    t.txInput.receiver).withContractCall t.contractCall).build
  let gasLimit := t.txInput.gasEstimator.forMultiESDTNFTTransfer (stringSize payload)
    t.tokenPayments.size
  .ok (tokenTransaction t.toITokenTransactionBuilder t.txInput t.txInput.sender gasLimit payload)

structure TransactionFactory where
  gasEstimator : GasEstimator
  chainID : Bytes

namespace TransactionFactory

def new (networkConfig : NetworkConfig) : TransactionFactory :=
  ⟨⟨networkConfig⟩, networkConfig.chainId⟩

def createEGLDTransfer (t : TransactionFactory) (nonce : UInt64) (value : BigUInt)
    (sender receiver : Address) (gasPrice : UInt64) (data : Bytes) :
    TransactionEGLDTransferBuilder where
  toITransactionBuilder := .new
  txInput :=
    { nonce, value, sender, receiver, data, gasPrice
      chainID := t.chainID
      gasEstimator := t.gasEstimator }

def createESDTIssue (t : TransactionFactory) (nonce : UInt64) (sender : Address)
    (gasPrice : UInt64) (token ticker : Bytes) (initialSupply : BigUInt) (numOfDecimals : UInt32)
    (esdtProperties : ESDTProperties) : Except Exception TransactionEGLDTransferBuilder := do
  let data ← ((((ESDTIssuePayloadBuilder.new token).setTicker ticker).setInitialSupply
    initialSupply).setNumOfDecimals numOfDecimals).withProperties esdtProperties |>.build
  let value ← BigUInt.ofString esdtIssuanceValue
  let receiver ← Address.ofBech32Address esdtIssuanceAddress
  let txInput : TransactionBuilderInput :=
    { nonce, value, sender, receiver, data, gasPrice
      chainID := t.chainID
      gasEstimator := t.gasEstimator
      gasLimit := esdtIssuanceGasLimit }
  .ok ⟨.new, txInput⟩

def tokenInput (t : TransactionFactory) (nonce : UInt64) (sender receiver : Address)
    (gasPrice : UInt64) : TransactionBuilderInput where
  nonce := nonce
  value := .ofUInt64 0
  sender := sender
  receiver := receiver
  data := []
  gasPrice := gasPrice
  chainID := t.chainID
  gasEstimator := t.gasEstimator

def createESDTTransfer (t : TransactionFactory) (tokenPayment : TokenPayment) (nonce : UInt64)
    (sender receiver : Address) (gasPrice : UInt64) : TransactionESDTBuilder :=
  ⟨.new, t.tokenInput nonce sender receiver gasPrice, tokenPayment⟩

def createESDTNFTTransfer (t : TransactionFactory) (tokenPayment : TokenPayment) (nonce : UInt64)
    (sender destination : Address) (gasPrice : UInt64) : TransactionESDTNFTBuilder :=
  ⟨.new, t.tokenInput nonce sender destination gasPrice, tokenPayment⟩

def createMultiESDTNFTTransfer (t : TransactionFactory) (tokenPayments : StdVector TokenPayment)
    (nonce : UInt64) (sender destination : Address) (gasPrice : UInt64) :
    TransactionMultiESDTNFTBuilder :=
  ⟨.new, t.tokenInput nonce sender destination gasPrice, tokenPayments⟩

end TransactionFactory

end MxSdk
