import MxSdk.SmartContracts.ContractCall
import MxSdk.Transaction.TokenPayment

/-! transaction/payload_builder.cpp. A payload is a name and hexadecimal fields: those
of the payment, then those of the contract call. -/

namespace MxSdk

/-! esdt.h -/

def esdtTransferPrefix : Bytes := ascii "ESDTTransfer"
def esdtNftTransferPrefix : Bytes := ascii "ESDTNFTTransfer"
def multiEsdtNftTransferPrefix : Bytes := ascii "MultiESDTNFTTransfer"
def esdtIssuancePrefix : Bytes := ascii "issue"
def esdtIssuanceValue : Bytes := ascii "50000000000000000"
def esdtIssuanceAddress : Bytes :=
  ascii "erd1qqqqqqqqqqqqqqqpqqqqqqqqqqqqqqqqqqqqqqqqqqqqqqqzllls8a5w6u"
def esdtIssuanceGasLimit : UInt64 := 60000000

structure ESDTProperties where
  canFreeze : Bool := false
  canWipe : Bool := false
  canPause : Bool := false
  canMint : Bool := false
  canBurn : Bool := false
  canChangeOwner : Bool := false
  canUpgrade : Bool := false
  canAddSpecialRoles : Bool := false
  canTransferNFTCreateRole : Bool := false
  deriving DecidableEq

def esdtIssuanceDefaultProperties : ESDTProperties := {}

/-- A `std::vector`. Its size is a `size_t`. -/
abbrev StdVector (α : Type) : Type := { l : List α // l.length < 2 ^ 64 }

def StdVector.size {α : Type} (v : StdVector α) : UInt64 := UInt64.ofNat v.1.length

theorem StdVector.toNat_size {α : Type} (v : StdVector α) : v.size.toNat = v.1.length :=
  UInt64.toNat_ofNat_of_lt' v.2

def esdtPropertyField (property : Bytes) (val : Bool) : Bytes :=
  let value := if val then ascii "true" else ascii "false"
  ascii "@" ++ Hex.stringToHex property ++ ascii "@" ++ Hex.stringToHex value

def esdtPropertiesAsOnData (esdtProperties : ESDTProperties) : Bytes :=
  esdtPropertyField (ascii "canFreeze") esdtProperties.canFreeze ++
    esdtPropertyField (ascii "canWipe") esdtProperties.canWipe ++
    esdtPropertyField (ascii "canPause") esdtProperties.canPause ++
    esdtPropertyField (ascii "canMint") esdtProperties.canMint ++
    esdtPropertyField (ascii "canBurn") esdtProperties.canBurn ++
    esdtPropertyField (ascii "canChangeOwner") esdtProperties.canChangeOwner ++
    esdtPropertyField (ascii "canUpgrade") esdtProperties.canUpgrade ++
    esdtPropertyField (ascii "canAddSpecialRoles") esdtProperties.canAddSpecialRoles ++
    esdtPropertyField (ascii "canTransferNFTCreateRole") esdtProperties.canTransferNFTCreateRole

structure ESDTTransferPayloadBuilder where
  payment : TokenPayment
  contractCall : ContractCall

namespace ESDTTransferPayloadBuilder

def new : Except Exception ESDTTransferPayloadBuilder := do
  .ok ⟨← TokenPayment.fungibleFromAmount [] (ascii "0") 0, .new []⟩

def setPayment (t : ESDTTransferPayloadBuilder) (payment : TokenPayment) :
    ESDTTransferPayloadBuilder := { t with payment }

def withContractCall (t : ESDTTransferPayloadBuilder) (contractCall : ContractCall) :
    ESDTTransferPayloadBuilder := { t with contractCall }

def build (t : ESDTTransferPayloadBuilder) : Except Exception Bytes := do
  let args := SCArguments.new
  let args ← args.add (.string t.payment.tokenIdentifier)
  let args ← args.add (.bigUInt t.payment.value)
  .ok (esdtTransferPrefix ++ args.asOnData ++ t.contractCall.asOnData)

end ESDTTransferPayloadBuilder

structure ESDTNFTTransferPayloadBuilder where
  payment : TokenPayment
  destination : Bytes
  contractCall : ContractCall

namespace ESDTNFTTransferPayloadBuilder

def new : Except Exception ESDTNFTTransferPayloadBuilder := do
  .ok ⟨← TokenPayment.fungibleFromAmount [] (ascii "0") 0, [], .new []⟩

def setPayment (t : ESDTNFTTransferPayloadBuilder) (payment : TokenPayment) :
    ESDTNFTTransferPayloadBuilder := { t with payment }

def setDestination (t : ESDTNFTTransferPayloadBuilder) (address : Address) :
    ESDTNFTTransferPayloadBuilder := { t with destination := address.bech32Address }

def withContractCall (t : ESDTNFTTransferPayloadBuilder) (contractCall : ContractCall) :
    ESDTNFTTransferPayloadBuilder := { t with contractCall }

def build (t : ESDTNFTTransferPayloadBuilder) : Except Exception Bytes := do
  let args := SCArguments.new
  let args ← args.add (.string t.payment.tokenIdentifier)
  let args ← args.add (.bigUInt (.ofUInt64 t.payment.nonce))
  let args ← args.add (.bigUInt t.payment.value)
  let args ← args.add (.address (← Address.ofBech32Address t.destination))
  .ok (esdtNftTransferPrefix ++ args.asOnData ++ t.contractCall.asOnData)

end ESDTNFTTransferPayloadBuilder

structure MultiESDTNFTTransferPayloadBuilder where
  payments : StdVector TokenPayment
  destination : Bytes
  contractCall : ContractCall

namespace MultiESDTNFTTransferPayloadBuilder

def new : MultiESDTNFTTransferPayloadBuilder := ⟨⟨[], by decide⟩, [], .new []⟩

def setPayments (t : MultiESDTNFTTransferPayloadBuilder) (payments : StdVector TokenPayment) :
    MultiESDTNFTTransferPayloadBuilder := { t with payments }

def setDestination (t : MultiESDTNFTTransferPayloadBuilder) (address : Address) :
    MultiESDTNFTTransferPayloadBuilder := { t with destination := address.bech32Address }

def withContractCall (t : MultiESDTNFTTransferPayloadBuilder) (contractCall : ContractCall) :
    MultiESDTNFTTransferPayloadBuilder := { t with contractCall }

/-- The body of the loop over the payments. -/
def addPayment (args : SCArguments) (payment : TokenPayment) : Except Exception SCArguments := do
  let args ← args.add (.string payment.tokenIdentifier)
  let args ← args.add (.bigUInt (.ofUInt64 payment.nonce))
  args.add (.bigUInt payment.value)

def build (t : MultiESDTNFTTransferPayloadBuilder) : Except Exception Bytes := do
  let args := SCArguments.new
  let args ← args.add (.address (← Address.ofBech32Address t.destination))
  let args ← args.add (.bigUInt (.ofUInt64 t.payments.size))
  let args ← t.payments.1.foldlM addPayment args
  .ok (multiEsdtNftTransferPrefix ++ args.asOnData ++ t.contractCall.asOnData)

end MultiESDTNFTTransferPayloadBuilder

structure ESDTIssuePayloadBuilder where
  token : Bytes
  ticker : Bytes
  initialSupply : BigUInt
  numOfDecimals : UInt32
  esdtProperties : ESDTProperties

namespace ESDTIssuePayloadBuilder

def new (token : Bytes) : ESDTIssuePayloadBuilder := ⟨token, [], .ofUInt64 0, 0, {}⟩

def setTicker (t : ESDTIssuePayloadBuilder) (ticker : Bytes) : ESDTIssuePayloadBuilder :=
  { t with ticker }

def setInitialSupply (t : ESDTIssuePayloadBuilder) (initialSupply : BigUInt) :
    ESDTIssuePayloadBuilder := { t with initialSupply }

def setNumOfDecimals (t : ESDTIssuePayloadBuilder) (numOfDecimals : UInt32) :
    ESDTIssuePayloadBuilder := { t with numOfDecimals }

def withProperties (t : ESDTIssuePayloadBuilder) (esdtProperties : ESDTProperties) :
    ESDTIssuePayloadBuilder := { t with esdtProperties }

def build (t : ESDTIssuePayloadBuilder) : Except Exception Bytes := do
  let args := SCArguments.new
  let args ← args.add (.string t.token)
  let args ← args.add (.string t.ticker)
  let args ← args.add (.bigUInt t.initialSupply)
  let args ← args.add (.bigUInt (.ofUInt64 t.numOfDecimals.toUInt64))
  let data := esdtIssuancePrefix ++ args.asOnData
  .ok (data ++ if t.esdtProperties ≠ esdtIssuanceDefaultProperties then
    esdtPropertiesAsOnData t.esdtProperties else [])

end ESDTIssuePayloadBuilder

def TokenPayment.esdtFields (payment : TokenPayment) : List Bytes :=
  [payment.tokenIdentifier, BigEndian.bytes payment.value.toNat]

def TokenPayment.nftFields (payment : TokenPayment) : List Bytes :=
  [payment.tokenIdentifier, BigEndian.bytes payment.nonce.toNat,
    BigEndian.bytes payment.value.toNat]

/-- A name, fields given by their bytes, and a contract call. -/
def payload (name : Bytes) (raws : List Bytes) (call : ContractCall) : Bytes :=
  Fields.join (chr '@') name (raws.map Hex.stringToHex ++ call.fields)

theorem payload_eq {args : SCArguments} {raws : List Bytes} (h : args.Holds raws) (name : Bytes)
    (call : ContractCall) : name ++ args.asOnData ++ call.asOnData = payload name raws call := by
  rw [payload, Fields.join_append, ← h, call.asOnData_eq]
  rfl

open SCArguments

namespace ESDTTransferPayloadBuilder

theorem build_eq (t : ESDTTransferPayloadBuilder) :
    t.build = .ok (payload esdtTransferPrefix t.payment.esdtFields t.contractCall) := by
  have hholds := holds_foldl holds_new t.payment.esdtFields
  simp only [build, add_eq, bind, Except.bind]
  exact congrArg Except.ok (payload_eq hholds _ _)

end ESDTTransferPayloadBuilder

namespace ESDTNFTTransferPayloadBuilder

theorem build_eq {t : ESDTNFTTransferPayloadBuilder} {destination : Address}
    (h : t.destination = destination.bech32Address) :
    t.build = .ok (payload esdtNftTransferPrefix
      (t.payment.nftFields ++ [destination.publicKey]) t.contractCall) := by
  have hholds := holds_foldl holds_new (t.payment.nftFields ++ [destination.publicKey])
  have hnonce : (BigUInt.ofUInt64 t.payment.nonce).toNat = t.payment.nonce.toNat :=
    BigUInt.toNat_ofNat _
  simp only [build, h, Address.ofBech32Address_text, add_eq, bind, Except.bind, SCArgument.raw,
    hnonce]
  exact congrArg Except.ok (payload_eq hholds _ _)

end ESDTNFTTransferPayloadBuilder

namespace MultiESDTNFTTransferPayloadBuilder

theorem addPayment_eq (args : SCArguments) (payment : TokenPayment) :
    addPayment args payment = .ok (payment.nftFields.foldl addString args) := by
  have hnonce : (BigUInt.ofUInt64 payment.nonce).toNat = payment.nonce.toNat :=
    BigUInt.toNat_ofNat _
  simp only [addPayment, add_eq, bind, Except.bind, SCArgument.raw, hnonce]
  rfl

theorem addPayments_eq (args : SCArguments) (payments : List TokenPayment) :
    payments.foldlM addPayment args =
      .ok ((payments.flatMap TokenPayment.nftFields).foldl addString args) := by
  induction payments generalizing args with
  | nil => rfl
  | cons payment payments ih =>
    rw [List.foldlM_cons, addPayment_eq, List.flatMap_cons, List.foldl_append]
    exact ih _

theorem build_eq {t : MultiESDTNFTTransferPayloadBuilder} {destination : Address}
    (h : t.destination = destination.bech32Address) :
    t.build = .ok (payload multiEsdtNftTransferPrefix
      ([destination.publicKey, BigEndian.bytes t.payments.1.length] ++
        t.payments.1.flatMap TokenPayment.nftFields) t.contractCall) := by
  have hsize : (BigUInt.ofUInt64 t.payments.size).toNat = t.payments.1.length := by
    rw [BigUInt.ofUInt64_eq, BigUInt.toNat_ofNat, StdVector.toNat_size]
  have hholds := holds_foldl holds_new
    ([destination.publicKey, BigEndian.bytes t.payments.1.length] ++
      t.payments.1.flatMap TokenPayment.nftFields)
  simp only [build, h, Address.ofBech32Address_text, add_eq, bind, Except.bind, SCArgument.raw,
    hsize, addPayments_eq]
  exact congrArg Except.ok (payload_eq hholds _ _)

end MultiESDTNFTTransferPayloadBuilder

namespace ESDTIssuePayloadBuilder

/-- The bytes of the fields of an issue, without the properties. -/
def raws (t : ESDTIssuePayloadBuilder) : List Bytes :=
  [t.token, t.ticker, BigEndian.bytes t.initialSupply.toNat,
    BigEndian.bytes t.numOfDecimals.toNat]

theorem build_eq (t : ESDTIssuePayloadBuilder) :
    t.build = .ok (payload esdtIssuancePrefix t.raws (.new []) ++
      if t.esdtProperties ≠ esdtIssuanceDefaultProperties then
        esdtPropertiesAsOnData t.esdtProperties else []) := by
  have hholds := holds_foldl holds_new t.raws
  have hdecimals : (BigUInt.ofUInt64 t.numOfDecimals.toUInt64).toNat = t.numOfDecimals.toNat :=
    BigUInt.toNat_ofNat _
  have hpayload := payload_eq hholds esdtIssuancePrefix (.new [])
  rw [ContractCall.asOnData_new, List.append_nil] at hpayload
  simp only [build, add_eq, bind, Except.bind, SCArgument.raw, hdecimals]
  exact congrArg (fun s => Except.ok (s ++ _)) hpayload

end ESDTIssuePayloadBuilder

end MxSdk
