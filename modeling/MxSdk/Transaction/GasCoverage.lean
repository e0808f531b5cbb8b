import MxSdk.Transaction.Transfers

/-! Whether the transactions of the factory pay for their data. An issue has a fixed gas
limit and therefore a longest text; the minimum of a token transfer wraps at 2^32. The
other requests always pay. -/

namespace MxSdk

inductive Request where
  | egldTransfer (nonce : UInt64) (value : BigUInt) (sender receiver : Address) (gasPrice : UInt64)
      (data : Bytes) (calls : List BuilderCall)
  | esdtIssue (nonce : UInt64) (sender : Address) (gasPrice : UInt64) (token ticker : Bytes)
      (initialSupply : BigUInt) (numOfDecimals : UInt32) (esdtProperties : ESDTProperties)
      (calls : List BuilderCall)
  | tokenTransfer (transfer : TokenTransfer) (nonce : UInt64) (sender destination : Address)
      (gasPrice : UInt64) (calls : List TokenBuilderCall)

namespace Request

def build (config : NetworkConfig) : Request → Except Exception Transaction
  | egldTransfer nonce value sender receiver gasPrice data calls =>
    let builder := (TransactionFactory.new config).createEGLDTransfer nonce value sender receiver
      gasPrice data
    .ok { builder with toITransactionBuilder := builder.toITransactionBuilder.run calls }.build
  | esdtIssue nonce sender gasPrice token ticker initialSupply numOfDecimals esdtProperties calls => do
    let builder ← (TransactionFactory.new config).createESDTIssue nonce sender gasPrice token ticker
      initialSupply numOfDecimals esdtProperties
    .ok { builder with toITransactionBuilder := builder.toITransactionBuilder.run calls }.build
  | tokenTransfer transfer nonce sender destination gasPrice calls =>
    transfer.build config nonce sender destination gasPrice calls

end Request

def ESDTProperties.values (t : ESDTProperties) : List Bool :=
  [t.canFreeze, t.canWipe, t.canPause, t.canMint, t.canBurn, t.canChangeOwner, t.canUpgrade,
    t.canAddSpecialRoles, t.canTransferNFTCreateRole]

/-- The bytes of the properties, which are written when one of them is set. -/
def ESDTProperties.length (t : ESDTProperties) : Nat :=
  if t.values.count true = 0 then 0 else 316 - 2 * t.values.count true

def issueLength (token ticker : Bytes) (initialSupply : BigUInt) (numOfDecimals : UInt32)
    (esdtProperties : ESDTProperties) : Nat :=
  9 + 2 * token.length + 2 * ticker.length + 2 * (BigEndian.bytes initialSupply.toNat).length +
    2 * (BigEndian.bytes numOfDecimals.toNat).length + esdtProperties.length

theorem length_esdtPropertyField (property : Bytes) (val : Bool) :
    (esdtPropertyField property val).length + 2 * val.toNat = 12 + 2 * property.length := by
  have htrue : (ascii "true").length = 4 := rfl
  have hfalse : (ascii "false").length = 5 := rfl
  have hsep : (ascii "@").length = 1 := rfl
  cases val with
  | true =>
    simp only [esdtPropertyField, if_true, List.length_append, Hex.length_stringToHex, htrue, hsep,
      Bool.toNat_true]
    omega
  | false =>
    simp only [esdtPropertyField, Bool.false_eq_true, if_false, List.length_append,
      Hex.length_stringToHex, hfalse, hsep, Bool.toNat_false]
    omega

theorem count_values (t : ESDTProperties) : t.values.count true =
    t.canFreeze.toNat + t.canWipe.toNat + t.canPause.toNat + t.canMint.toNat + t.canBurn.toNat +
      t.canChangeOwner.toNat + t.canUpgrade.toNat + t.canAddSpecialRoles.toNat +
      t.canTransferNFTCreateRole.toNat := by
  have hone (b : Bool) : (if b == true then 1 else 0) = b.toNat := by cases b <;> rfl
  simp only [ESDTProperties.values, List.count_cons, List.count_nil, hone]
  omega

theorem count_values_eq_zero (t : ESDTProperties) :
    t.values.count true = 0 ↔ t = esdtIssuanceDefaultProperties := by
  rw [List.count_eq_zero]
  constructor
  · intro h
    cases t
    simp only [ESDTProperties.values, List.mem_cons, not_or, Bool.true_eq, Bool.not_eq_true,
      List.not_mem_nil, not_false_eq_true, and_true] at h
    simp only [h, esdtIssuanceDefaultProperties]
  · rintro rfl
    decide

theorem length_esdtPropertiesAsOnData (t : ESDTProperties) :
    (esdtPropertiesAsOnData t).length + 2 * t.values.count true = 316 := by
  have hfield := length_esdtPropertyField
  have h1 := hfield (ascii "canFreeze") t.canFreeze
  have h2 := hfield (ascii "canWipe") t.canWipe
  have h3 := hfield (ascii "canPause") t.canPause
  have h4 := hfield (ascii "canMint") t.canMint
  have h5 := hfield (ascii "canBurn") t.canBurn
  have h6 := hfield (ascii "canChangeOwner") t.canChangeOwner
  have h7 := hfield (ascii "canUpgrade") t.canUpgrade
  have h8 := hfield (ascii "canAddSpecialRoles") t.canAddSpecialRoles
  have h9 := hfield (ascii "canTransferNFTCreateRole") t.canTransferNFTCreateRole
  have hnames : (ascii "canFreeze").length = 9 ∧ (ascii "canWipe").length = 7 ∧
      (ascii "canPause").length = 8 ∧ (ascii "canMint").length = 7 ∧
      (ascii "canBurn").length = 7 ∧ (ascii "canChangeOwner").length = 14 ∧
      (ascii "canUpgrade").length = 10 ∧ (ascii "canAddSpecialRoles").length = 18 ∧
      (ascii "canTransferNFTCreateRole").length = 24 := by decide +kernel
  rw [count_values, esdtPropertiesAsOnData]
  simp only [List.length_append]
  omega

theorem length_esdtProperties (t : ESDTProperties) :
    (if t ≠ esdtIssuanceDefaultProperties then esdtPropertiesAsOnData t else []).length =
      t.length := by
  rw [ESDTProperties.length, if_congr (count_values_eq_zero t) rfl rfl]
  by_cases h : t = esdtIssuanceDefaultProperties
  · rw [if_neg (not_not.mpr h), if_pos h]
    rfl
  · have hlength := length_esdtPropertiesAsOnData t
    rw [if_pos h, if_neg h]
    omega

theorem length_payload_issue (t : ESDTIssuePayloadBuilder) :
    (payload esdtIssuancePrefix t.raws (.new []) ++
      if t.esdtProperties ≠ esdtIssuanceDefaultProperties then
        esdtPropertiesAsOnData t.esdtProperties else []).length =
      issueLength t.token t.ticker t.initialSupply t.numOfDecimals t.esdtProperties := by
  have hprefix : esdtIssuancePrefix.length = 5 := rfl
  have hcall : (ContractCall.new []).fields = [] := rfl
  rw [List.length_append, length_esdtProperties, payload, Fields.length_join, hprefix, hcall]
  simp only [ESDTIssuePayloadBuilder.raws, List.map_cons, List.map_nil, List.append_nil,
    List.sum_cons, List.sum_nil, Hex.length_stringToHex, issueLength]
  omega

def Transaction.dataLength (t : Transaction) : Nat := (t.data.getD []).length

theorem stringToBytesPtr_getD (s : Bytes) : (stringToBytesPtr s).getD [] = s := by
  rw [stringToBytesPtr]
  split
  · rename_i h
    exact (List.isEmpty_iff.mp h).symm
  · rfl

def issuance : Address where
  publicKey := List.replicate 9 0 ++ [1] ++ List.replicate 18 0 ++ [0, 2, 0xff, 0xff]
  bech32Address := esdtIssuanceAddress
  reads := by decide +kernel

namespace Request

/-- The exact sum of a gas estimate, for data of this length. -/
def exactGas (config : NetworkConfig) (length : Nat) : Request → Nat
  | egldTransfer .. | esdtIssue .. => config.required length
  | tokenTransfer (.esdt _) .. => config.required length + 300000
  | tokenTransfer (.nft _) .. => config.required length + 1000000
  | tokenTransfer (.multi payments) .. => config.required length + 1000000 * payments.1.length

def Covered (config : NetworkConfig) : Request → Prop
  | egldTransfer .. | tokenTransfer (.multi _) .. => True
  | esdtIssue _ _ _ token ticker initialSupply numOfDecimals esdtProperties _ =>
    config.required (issueLength token ticker initialSupply numOfDecimals esdtProperties) ≤ 60000000
  | tokenTransfer (.esdt _) .. | tokenTransfer (.nft _) .. =>
    config.minGasLimit.toNat + 200000 < 2 ^ 32

end Request

theorem egld_build (t : TransactionEGLDTransferBuilder) : t.build.dataLength = t.txInput.data.length ∧
    t.build.gasLimit = if t.txInput.gasLimit = 0 then
      t.txInput.gasEstimator.forEGLDTransfer (stringSize t.txInput.data) else t.txInput.gasLimit :=
  ⟨congrArg List.length (stringToBytesPtr_getD _), rfl⟩

theorem createESDTIssue_ok (t : TransactionFactory) (nonce : UInt64) (sender : Address)
    (gasPrice : UInt64) (token ticker : Bytes) (initialSupply : BigUInt) (numOfDecimals : UInt32)
    (esdtProperties : ESDTProperties) :
    ∃ builder, t.createESDTIssue nonce sender gasPrice token ticker initialSupply numOfDecimals
        esdtProperties = .ok builder ∧ builder.txInput.gasLimit = esdtIssuanceGasLimit ∧
      builder.txInput.data.length =
        issueLength token ticker initialSupply numOfDecimals esdtProperties := by
  have hvalue : BigUInt.ofString esdtIssuanceValue = .ok (.ofNat 50000000000000000) := by
    decide +kernel
  have hreceiver : Address.ofBech32Address esdtIssuanceAddress = .ok issuance :=
    Address.ofBech32Address_text issuance
  rw [TransactionFactory.createESDTIssue, ESDTIssuePayloadBuilder.build_eq, hvalue, hreceiver]
  exact ⟨_, rfl, rfl, length_payload_issue ⟨token, ticker, initialSupply, numOfDecimals,
    esdtProperties⟩⟩

theorem transfer_gasLimit (config : NetworkConfig) (nonce : UInt64) (sender destination : Address)
    (gasPrice : UInt64) (calls : List TokenBuilderCall) (transfer : TokenTransfer) :
    ∃ tx, transfer.build config nonce sender destination gasPrice calls = .ok tx ∧
      ∃ data, tx.dataLength = data.length ∧ tx.gasLimit = transfer.gasLimit config data := by
  obtain ⟨told, -, hbuild⟩ := transfer.build_eq config nonce sender destination gasPrice calls
  exact ⟨_, hbuild, _, congrArg List.length (stringToBytesPtr_getD _), rfl⟩

theorem Request.pays_iff (config : NetworkConfig) (request : Request) :
    ∃ tx, request.build config = .ok tx ∧
      (request.exactGas config tx.dataLength < 2 ^ 64 →
        (config.required tx.dataLength ≤ tx.gasLimit.toNat ↔ request.Covered config)) := by
  cases request with
  | egldTransfer nonce value sender receiver gasPrice data calls =>
    refine ⟨_, rfl, fun hexact => iff_of_true ?_ trivial⟩
    rw [exactGas, (egld_build _).1] at hexact
    rw [(egld_build _).1, (egld_build _).2]
    exact (GasEstimator.toNat_forEGLDTransfer ⟨config⟩ hexact).ge
  | esdtIssue nonce sender gasPrice token ticker initialSupply numOfDecimals esdtProperties calls =>
    obtain ⟨builder, hbuilder, hgas, hlength⟩ := createESDTIssue_ok (.new config) nonce sender
      gasPrice token ticker initialSupply numOfDecimals esdtProperties
    refine ⟨_, by rw [build, hbuilder]; rfl, fun _ => ?_⟩
    rw [(egld_build _).1, (egld_build _).2, hlength, hgas]
    rfl
  | tokenTransfer transfer nonce sender destination gasPrice calls =>
    obtain ⟨tx, hbuild, data, hlength, hgas⟩ := transfer_gasLimit config nonce sender destination
      gasPrice calls transfer
    refine ⟨tx, hbuild, fun hexact => ?_⟩
    rw [hlength] at hexact ⊢
    rw [hgas]
    cases transfer with
    | esdt payment =>
      have hcovers := GasEstimator.le_iff_of_wrapped
        (GasEstimator.toNat_forESDTTransfer ⟨config⟩ hexact) (by decide)
      exact hcovers
    | nft payment =>
      have hcovers := GasEstimator.le_iff_of_wrapped
        (GasEstimator.toNat_forESDTNFTTransfer ⟨config⟩ hexact) (by decide)
      exact hcovers
    | multi payments =>
      rw [exactGas, ← StdVector.toNat_size] at hexact
      have hgas := GasEstimator.toNat_forMultiESDTNFTTransfer ⟨config⟩ hexact
      exact iff_of_true ((Nat.le_add_right _ _).trans hgas.ge) trivial

/-- `DEFAULT_MAINNET_NETWORK_CONFIG`. -/
def mainnet : NetworkConfig := ⟨ascii "1", 1500, 50000, 1000000000⟩

theorem Request.pays_iff_mainnet :
    ∃ tx, (egldTransfer 0 (.ofUInt64 1) issuance issuance 1000000000 (ascii "hello") []).build
        mainnet = .ok tx ∧ mainnet.required tx.dataLength < 2 ^ 64 ∧
      (mainnet.required tx.dataLength ≤ tx.gasLimit.toNat ↔
        (egldTransfer 0 (.ofUInt64 1) issuance issuance 1000000000 (ascii "hello") []).Covered
          mainnet) := by
  obtain ⟨tx, hbuild, hpays⟩ := pays_iff mainnet
    (egldTransfer 0 (.ofUInt64 1) issuance issuance 1000000000 (ascii "hello") [])
  have hexact : mainnet.required tx.dataLength < 2 ^ 64 := by
    rw [← Except.ok.inj hbuild]
    decide +kernel
  exact ⟨tx, hbuild, hexact, hpays hexact⟩

theorem Request.pays_issue_fails : ¬ ∀ (config : NetworkConfig) (request : Request)
    (tx : Transaction), request.build config = .ok tx →
      request.exactGas config tx.dataLength < 2 ^ 64 →
      config.required tx.dataLength ≤ tx.gasLimit.toNat := by
  intro h
  obtain ⟨builder, hbuilder, hgas, hlength⟩ := createESDTIssue_ok (.new mainnet) 0 issuance
    1000000000 (List.replicate 20000 97) (ascii "TICKER") (.ofUInt64 1) 0 {}
  have hlong : builder.txInput.data.length = 40025 := by
    rw [hlength, issueLength, List.length_replicate]
    decide +kernel
  have hpays := h mainnet (esdtIssue 0 issuance 1000000000 (List.replicate 20000 97)
    (ascii "TICKER") (.ofUInt64 1) 0 {} []) _ (by rw [build, hbuilder]; rfl)
  rw [exactGas, (egld_build _).1, (egld_build _).2, hlong, hgas,
    if_neg (show esdtIssuanceGasLimit ≠ 0 by decide)] at hpays
  exact absurd (hpays (by decide +kernel)) (by decide +kernel)

end MxSdk
