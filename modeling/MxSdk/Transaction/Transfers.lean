import MxSdk.Transaction.TransactionBuilders

/-! What the transactions of token transfers say. Their data is split at the separator
and decoded without knowing how many payments or arguments there are: no field holds a
separator, whatever bytes it stands for. -/

namespace MxSdk

/-- A token transfer, by the function of the factory that makes it. -/
inductive TokenTransfer where
  | esdt (payment : TokenPayment)
  | nft (payment : TokenPayment)
  | multi (payments : StdVector TokenPayment)

namespace TokenTransfer

/-- The factory makes a builder, the calls are made on it, and it builds. -/
def build (config : NetworkConfig) (nonce : UInt64) (sender destination : Address)
    (gasPrice : UInt64) (calls : List TokenBuilderCall) :
    TokenTransfer → Except Exception Transaction
  | esdt payment => do
    let builder := (TransactionFactory.new config).createESDTTransfer payment nonce sender
      destination gasPrice
    let told ← builder.toITokenTransactionBuilder.run calls
    { builder with toITokenTransactionBuilder := told }.build
  | nft payment => do
    let builder := (TransactionFactory.new config).createESDTNFTTransfer payment nonce sender
      destination gasPrice
    let told ← builder.toITokenTransactionBuilder.run calls
    { builder with toITokenTransactionBuilder := told }.build
  | multi payments => do
    let builder := (TransactionFactory.new config).createMultiESDTNFTTransfer payments nonce sender
      destination gasPrice
    let told ← builder.toITokenTransactionBuilder.run calls
    { builder with toITokenTransactionBuilder := told }.build

def name : TokenTransfer → Bytes
  | esdt _ => esdtTransferPrefix
  | nft _ => esdtNftTransferPrefix
  | multi _ => multiEsdtNftTransferPrefix

/-- The bytes behind the name, without the contract call. -/
def fields (destination : Address) : TokenTransfer → List Bytes
  | esdt payment => payment.esdtFields
  | nft payment => payment.nftFields ++ [destination.publicKey]
  | multi payments => [destination.publicKey, BigEndian.bytes payments.1.length] ++
    payments.1.flatMap TokenPayment.nftFields

def receiver (sender destination : Address) : TokenTransfer → Address
  | esdt _ => destination
  | nft _ | multi _ => sender

def gasLimit (config : NetworkConfig) (payload : Bytes) : TokenTransfer → UInt64
  | esdt _ => GasEstimator.forESDTTransfer ⟨config⟩ (stringSize payload)
  | nft _ => GasEstimator.forESDTNFTTransfer ⟨config⟩ (stringSize payload)
  | multi payments => GasEstimator.forMultiESDTNFTTransfer ⟨config⟩ (stringSize payload) payments.size

end TokenTransfer

namespace TokenBuilderCall

def version? : TokenBuilderCall → Option UInt64
  | base (.withVersion version) => some version
  | _ => none

def options? : TokenBuilderCall → Option UInt32
  | base (.withOptions options) => some options
  | _ => none

/-- The bytes of a contract call: nothing without a function. -/
def contractCall? : TokenBuilderCall → Option (List Bytes)
  | withContractCall function args =>
    some (if function.isEmpty then [] else function :: args.map SCArgument.raw)
  | _ => none

def last {α : Type} (value? : TokenBuilderCall → Option α) (calls : List TokenBuilderCall) :
    Option α := (calls.filterMap value?).getLast?

theorem last_append_some {α : Type} (value? : TokenBuilderCall → Option α) {call : TokenBuilderCall}
    {a : α} (h : value? call = some a) (calls : List TokenBuilderCall) :
    last value? (calls ++ [call]) = some a := by
  rw [last, List.filterMap_append, List.filterMap_cons_some h, List.filterMap_nil,
    List.getLast?_append]
  rfl

theorem last_append_none {α : Type} (value? : TokenBuilderCall → Option α) {call : TokenBuilderCall}
    (h : value? call = none) (calls : List TokenBuilderCall) :
    last value? (calls ++ [call]) = last value? calls := by
  rw [last, List.filterMap_append, List.filterMap_cons_none h, List.filterMap_nil,
    List.append_nil]
  rfl

end TokenBuilderCall

open TokenBuilderCall

structure Told (t : ITokenTransactionBuilder) (calls : List TokenBuilderCall) : Prop where
  version : t.version = (last version? calls).getD 1
  options : t.options = last options? calls
  contractCall : t.contractCall.fields =
    ((last contractCall? calls).getD []).map Hex.stringToHex

theorem told_new : Told .new [] := ⟨rfl, rfl, rfl⟩

theorem Told.call {t : ITokenTransactionBuilder} {calls : List TokenBuilderCall} (h : Told t calls)
    (call : TokenBuilderCall) : ∃ t', t.call call = .ok t' ∧ Told t' (calls ++ [call]) := by
  obtain ⟨hversion, hoptions, hcall⟩ := h
  cases call with
  | base call =>
    refine ⟨_, rfl, ?_⟩
    cases call with
    | withVersion version =>
      constructor
      · rw [last_append_some version? rfl]
        rfl
      · rw [last_append_none options? rfl, ← hoptions]
        rfl
      · rw [last_append_none contractCall? rfl, ← hcall]
    | withOptions options =>
      constructor
      · rw [last_append_none version? rfl, ← hversion]
        rfl
      · rw [last_append_some options? rfl]
        rfl
      · rw [last_append_none contractCall? rfl, ← hcall]
  | withContractCall function args =>
    have hholds := SCArguments.holds_foldl SCArguments.holds_new (args.map SCArgument.raw)
    refine ⟨t.withContractCall ⟨function, (args.map SCArgument.raw).foldl .addString .new⟩, ?_, ?_⟩
    · rw [ITokenTransactionBuilder.call, SCArguments.addAll_eq]
      rfl
    · constructor
      · rw [last_append_none version? rfl, ← hversion]
        rfl
      · rw [last_append_none options? rfl, ← hoptions]
        rfl
      · rw [last_append_some contractCall? rfl, Option.getD_some,
          ITokenTransactionBuilder.withContractCall, ContractCall.fields, hholds, List.nil_append]
        simp only
        split <;> rfl

theorem told_run (calls : List TokenBuilderCall) :
    ∃ t', ITokenTransactionBuilder.new.run calls = .ok t' ∧ Told t' calls := by
  induction calls using List.reverseRecOn with
  | nil => exact ⟨_, rfl, told_new⟩
  | append_singleton calls call ih =>
    obtain ⟨t, hrun, htold⟩ := ih
    obtain ⟨t', hcall, htold'⟩ := htold.call call
    refine ⟨t', ?_, htold'⟩
    rw [ITokenTransactionBuilder.run, List.foldlM_append, ← ITokenTransactionBuilder.run, hrun]
    simp only [bind, Except.bind, List.foldlM_cons, hcall, List.foldlM_nil]
    rfl

theorem TokenTransfer.build_eq (config : NetworkConfig) (nonce : UInt64)
    (sender destination : Address) (gasPrice : UInt64) (calls : List TokenBuilderCall)
    (transfer : TokenTransfer) : ∃ told, Told told calls ∧
      transfer.build config nonce sender destination gasPrice calls =
        .ok (tokenTransaction told
          ((TransactionFactory.new config).tokenInput nonce sender destination gasPrice)
          (transfer.receiver sender destination)
          (transfer.gasLimit config
            (payload transfer.name (transfer.fields destination) told.contractCall))
          (payload transfer.name (transfer.fields destination) told.contractCall)) := by
  obtain ⟨told, hrun, htold⟩ := told_run calls
  refine ⟨told, htold, ?_⟩
  have hstart : TokenPayment.fungibleFromAmount [] (ascii "0") 0 =
      .ok ⟨[], 0, .ofNat 0, 0⟩ := by decide +kernel
  cases transfer with
  | esdt payment =>
    rw [build]
    simp only [TransactionFactory.createESDTTransfer, hrun, bind, Except.bind,
      TransactionESDTBuilder.build, ESDTTransferPayloadBuilder.new, hstart,
      ESDTTransferPayloadBuilder.build_eq]
    rfl
  | nft payment =>
    rw [build]
    simp only [TransactionFactory.createESDTNFTTransfer, hrun, bind, Except.bind,
      TransactionESDTNFTBuilder.build, ESDTNFTTransferPayloadBuilder.new, hstart]
    rw [@ESDTNFTTransferPayloadBuilder.build_eq _ destination rfl]
    rfl
  | multi payments =>
    rw [build]
    simp only [TransactionFactory.createMultiESDTNFTTransfer, hrun, bind, Except.bind,
      TransactionMultiESDTNFTBuilder.build]
    rw [@MultiESDTNFTTransferPayloadBuilder.build_eq _ destination rfl]
    rfl

theorem TokenTransfer.name_plain (transfer : TokenTransfer) :
    chr '@' ∉ transfer.name ∧ transfer.name ≠ [] := by
  cases transfer with
  | esdt payment =>
    change chr '@' ∉ esdtTransferPrefix ∧ esdtTransferPrefix ≠ []
    decide +kernel
  | nft payment =>
    change chr '@' ∉ esdtNftTransferPrefix ∧ esdtNftTransferPrefix ≠ []
    decide +kernel
  | multi payments =>
    change chr '@' ∉ multiEsdtNftTransferPrefix ∧ multiEsdtNftTransferPrefix ≠ []
    decide +kernel

/-- The data has a name in front, so that it is never left out. -/
theorem stringToBytesPtr_payload {name : Bytes} (h : name ≠ []) (raws : List Bytes)
    (call : ContractCall) :
    stringToBytesPtr (payload name raws call) = some (payload name raws call) := by
  rw [stringToBytesPtr, if_neg]
  rw [List.isEmpty_iff, payload, Fields.join, List.append_eq_nil_iff]
  exact fun hnil => h hnil.1

theorem TokenTransfer.build_says (config : NetworkConfig) (nonce : UInt64)
    (sender destination : Address) (gasPrice : UInt64) (calls : List TokenBuilderCall)
    (transfer : TokenTransfer) :
    ∃ tx data fields, transfer.build config nonce sender destination gasPrice calls = .ok tx ∧
      tx.data = some data ∧ parts data = transfer.name :: fields ∧
      fields.mapM Hex.hexToString =
        .ok (transfer.fields destination ++ (last contractCall? calls).getD []) ∧
      tx.receiver = some (transfer.receiver sender destination) ∧ tx.sender = some sender ∧
      tx.nonce = nonce ∧ tx.value = .ofUInt64 0 ∧ tx.gasPrice = gasPrice ∧
      tx.chainId = config.chainId ∧ tx.version = (last version? calls).getD 1 ∧
      tx.options = last options? calls ∧ tx.receiverUserName = none ∧ tx.senderUserName = none ∧
      tx.signature = none := by
  obtain ⟨told, ⟨hversion, hoptions, hcall⟩, hbuild⟩ :=
    transfer.build_eq config nonce sender destination gasPrice calls
  obtain ⟨hname, hne⟩ := transfer.name_plain
  have hpayload : payload transfer.name (transfer.fields destination) told.contractCall =
      Fields.join (chr '@') transfer.name ((transfer.fields destination ++
        (last contractCall? calls).getD []).map Hex.stringToHex) := by
    rw [payload, hcall, List.map_append]
  refine ⟨_, _, _, hbuild, stringToBytesPtr_payload hne _ _, ?_, mapM_hexToString _, rfl, rfl, rfl,
    rfl, rfl, rfl, hversion, hoptions, rfl, rfl, rfl⟩
  rw [hpayload]
  exact parts_join hname (isHex_map _)

end MxSdk
