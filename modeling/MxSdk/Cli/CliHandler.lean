import MxSdk.Cli.SecretKeyProvider
import MxSdk.Cli.TransactionInputWrapper
import MxSdk.Transaction.GasCoverage

/-! `handleTransferESDT` of cli_handler.cpp, next to what the library builds for the same
command line. The configurations of the tool and of the network are given. -/

namespace MxSdk.Cli
open Cxxopts Transaction

/-- The transaction before it is signed, for the network of a gateway. -/
def assembleTransfer (token : Bytes) (args : List Bytes) (tx : Transaction) (keyFile : ISecretKey)
    (cfg : NetworkConfig) : Except Exception Transaction := do
  let tokenPayment := TokenPayment.fungibleFromBigUInt token tx.value 0
  let txFactory := TransactionFactory.new cfg
  let sender ← keyFile.getAddress
  let some receiver := tx.receiver | throw .invalidAccess
  let tx ← (txFactory.createESDTTransfer tokenPayment tx.nonce sender receiver tx.gasPrice).build
  let some data := tx.data | throw .invalidAccess
  let data := if !args.isEmpty then args.foldl (fun txData arg => txData ++ (ascii "@" ++ arg)) data
    else data
  let gasLimit := (GasEstimator.mk cfg).forESDTTransfer (stringSize data)
  .ok { tx with data := some data, gasLimit }

/-- What is read before the gateway is asked. The function is read and not used. -/
def readTransfer (result : ParseResult) (config : Config)
    (keyFile : Except Exception ISecretKey) :
    Except Exception (ISecretKey × (NetworkConfig → Except Exception Transaction)) := do
  let token ← result.getAs (ascii "token") .string
  let _function ← result.getAs (ascii "function") .string
  let args ← result.getAs (ascii "args") .strings
  let keyFile ← keyFile
  let tx ← createTransaction result config
  .ok (keyFile, assembleTransfer token args tx keyFile)

def transferESDT (result : ParseResult) (config : Config) (cfg : NetworkConfig)
    (keyFile : Except Exception ISecretKey) : Except Exception Transaction := do
  let (_, assemble) ← readTransfer result config keyFile
  assemble cfg

section Handler
variable [Platform] [Sodium] [WalletCrypto]

def prepareTransfer (result : ParseResult) (config : Config) (files : Files) :
    Except Exception (NetworkConfig → Except Exception Transaction) := do
  let (keyFile, assemble) ← readTransfer result config (SecretKeyProvider.new files result)
  .ok fun cfg => do
    let tx ← assemble cfg
    signTransaction tx keyFile

def handleTransferESDT (files : Files) (result : ParseResult) (config : Config)
    (cfg : NetworkConfig) : Except Exception Transaction := do
  let make ← prepareTransfer result config files
  make cfg

end Handler

theorem readTransfer_ok {result : ParseResult} {config : Config}
    {keyFile : Except Exception ISecretKey} {key : ISecretKey}
    {assemble : NetworkConfig → Except Exception Transaction}
    (h : readTransfer result config keyFile = .ok (key, assemble)) : ∃ token args tx,
      result.getAs (ascii "token") .string = .ok token ∧
      result.getAs (ascii "args") .strings = .ok args ∧ keyFile = .ok key ∧
      createTransaction result config = .ok tx ∧ assemble = assembleTransfer token args tx key := by
  obtain ⟨token, htoken, h⟩ := bind_eq_ok h
  obtain ⟨_, -, h⟩ := bind_eq_ok h
  obtain ⟨args, hargs, h⟩ := bind_eq_ok h
  obtain ⟨key', hkey, h⟩ := bind_eq_ok h
  obtain ⟨tx, htx, h⟩ := bind_eq_ok h
  obtain ⟨rfl, rfl⟩ := Prod.mk.inj (Except.ok.inj h)
  exact ⟨token, args, tx, htoken, hargs, hkey, htx, rfl⟩

theorem prepareTransfer_ok [Platform] [Sodium] [WalletCrypto] {files : Files}
    {result : ParseResult} {config : Config} {make : NetworkConfig → Except Exception Transaction}
    (h : prepareTransfer result config files = .ok make) : ∃ key assemble,
      readTransfer result config (SecretKeyProvider.new files result) = .ok (key, assemble) ∧
      make = fun cfg => assemble cfg >>= fun tx => signTransaction tx key := by
  obtain ⟨⟨key, assemble⟩, hread, h⟩ := bind_eq_ok h
  exact ⟨key, assemble, hread, (Except.ok.inj h).symm⟩

theorem handleTransferESDT_ok [Platform] [Sodium] [WalletCrypto] {files : Files}
    {result : ParseResult} {config : Config} {cfg : NetworkConfig} {sent : Transaction}
    (h : handleTransferESDT files result config cfg = .ok sent) : ∃ key tx,
      SecretKeyProvider.new files result = .ok key ∧
      transferESDT result config cfg (.ok key) = .ok tx ∧ sent.data = tx.data ∧
      sent.gasLimit = tx.gasLimit := by
  obtain ⟨make, hmake, h⟩ := bind_eq_ok h
  obtain ⟨key, assemble, hread, rfl⟩ := prepareTransfer_ok hmake
  obtain ⟨tx, htx, h⟩ := bind_eq_ok h
  obtain ⟨_, _, _, -, -, hkey, -, -⟩ := readTransfer_ok hread
  rw [hkey] at hread
  obtain ⟨_, _, _, -, -, -, hsign⟩ := signTransaction_ok h
  obtain ⟨m, -, hsign⟩ := bind_eq_ok hsign
  refine ⟨key, tx, hkey, ?_, ?_⟩
  · rw [transferESDT, hread]
    exact htx
  · rw [← Except.ok.inj hsign]
    exact ⟨rfl, rfl⟩

/-- A line asks for a call of a function with arguments, given by their bytes, or for none. -/
inductive AsksCall (line : CommandLine) : Option (Bytes × List Bytes) → Prop where
  | withArgs {function : Bytes} {args : List Bytes} (hne : function ≠ [])
      (hfunction : textOf line (ascii "function") = some function)
      (hargs : given line (ascii "args") .strings = some (args.map Hex.stringToHex)) :
      AsksCall line (some (function, args))
  | withoutArgs {function : Bytes} (hne : function ≠ [])
      (hfunction : textOf line (ascii "function") = some function)
      (hargs : textOf line (ascii "args") = none) : AsksCall line (some (function, []))
  | plain (hfunction : textOf line (ascii "function") = none)
      (hargs : textOf line (ascii "args") = none) : AsksCall line none

def builderCalls : Option (Bytes × List Bytes) → List TokenBuilderCall
  | none => []
  | some (function, args) => [.withContractCall function (args.map .string)]

def callFields : Option (Bytes × List Bytes) → List Bytes
  | none => []
  | some (function, args) => (function :: args).map Hex.stringToHex

theorem told_builderCalls {line : CommandLine} {call : Option (Bytes × List Bytes)}
    (hcall : AsksCall line call) {told : ITokenTransactionBuilder}
    (h : Told told (builderCalls call)) : told.contractCall.fields = callFields call := by
  have hraw (args : List Bytes) : (args.map SCArgument.string).map SCArgument.raw = args := by
    rw [List.map_map]
    exact List.map_id args
  have hfields (function : Bytes) (args : List Bytes) (hne : function ≠ []) :
      TokenBuilderCall.last TokenBuilderCall.contractCall?
        [.withContractCall function (args.map .string)] = some (function :: args) := by
    refine TokenBuilderCall.last_append_some _ ?_ []
    rw [TokenBuilderCall.contractCall?, List.isEmpty_eq_false_iff.mpr hne, hraw]
    rfl
  rw [h.contractCall]
  cases hcall with
  | plain => rfl
  | withArgs hne => rw [builderCalls, hfields _ _ hne]; rfl
  | withoutArgs hne => rw [builderCalls, hfields _ _ hne]; rfl

theorem args_ne_callFields {line : CommandLine} {call : Option (Bytes × List Bytes)}
    (hcall : AsksCall line call) :
    (given line (ascii "args") .strings).getD [[]] ≠ callFields call := by
  cases hcall with
  | plain _ hargs =>
    rw [given_absent hargs]
    exact List.cons_ne_nil _ _
  | withArgs _ _ hargs =>
    rw [hargs, Option.getD_some, callFields]
    intro heq
    have hlength := congrArg List.length heq
    rw [List.length_map, List.length_map, List.length_cons] at hlength
    omega
  | @withoutArgs function hne _ hargs =>
    rw [given_absent hargs, callFields, Option.getD_none]
    intro heq
    have hhead : [] = Hex.stringToHex function := (List.cons.inj heq).1
    have hlength := congrArg List.length hhead
    rw [Hex.length_stringToHex, List.length_nil] at hlength
    exact hne (List.length_eq_zero_iff.mp (by omega))

theorem args_isHex {line : CommandLine} {call : Option (Bytes × List Bytes)}
    (hcall : AsksCall line call) :
    ∀ arg ∈ (given line (ascii "args") .strings).getD [[]], IsHex arg := by
  have hempty : ∀ arg ∈ [([] : Bytes)], IsHex arg := isHex_map [[]]
  cases hcall with
  | plain _ hargs => rwa [given_absent hargs]
  | withoutArgs _ _ hargs => rwa [given_absent hargs]
  | withArgs _ _ hargs =>
    rw [hargs]
    exact isHex_map _

theorem callFields_isHex (call : Option (Bytes × List Bytes)) :
    ∀ field ∈ callFields call, IsHex field := by
  cases call with
  | none => exact nofun
  | some call => exact isHex_map _

theorem transfer_data_ne {line : CommandLine} {call : Option (Bytes × List Bytes)}
    (hcall : AsksCall line call) (name : Bytes) (fields : List Bytes) :
    Fields.join (chr '@') name (fields ++ (given line (ascii "args") .strings).getD [[]]) ≠
      Fields.join (chr '@') name (fields ++ callFields call) := by
  intro heq
  rw [Fields.join_append, Fields.join_append] at heq
  exact args_ne_callFields hcall (Fields.join_inj (chr '@')
    (fun arg harg => (args_isHex hcall arg harg).no_separator)
    (fun field hfield => (callFields_isHex call field hfield).no_separator) heq)

section Transfer
variable {line : CommandLine} {result : ParseResult}

theorem read_transfer (h : Accepted initOptionsTransfer line result) {token : Bytes}
    (htoken : textOf line (ascii "token") = some token) :
    result.getAs (ascii "token") .string = .ok token ∧
      (∃ function, result.getAs (ascii "function") .string = .ok function) ∧
      result.getAs (ascii "args") .strings =
        .ok ((given line (ascii "args") .strings).getD [[]]) := by
  have hparse := parse_of_canParse h.parsed
  have declared : find initOptionsTransfer (ascii "token") =
        some ⟨ascii "token", .string, none⟩ ∧
      find initOptionsTransfer (ascii "function") =
        some ⟨ascii "function", .string, some []⟩ ∧
      find initOptionsTransfer (ascii "args") = some ⟨ascii "args", .strings, some []⟩ := by
    decide +kernel
  obtain ⟨htokenType, hfunctionType, hargsType⟩ := declared
  refine ⟨?_, ?_, ?_⟩
  · obtain ⟨value, hgiven, -, hget⟩ := getAs_given h (type_of_find htokenType) htoken
    rw [given_string htoken] at hgiven
    rw [hget, Option.some.inj hgiven]
  · cases htext : textOf line (ascii "function") with
    | none => exact ⟨[], getAs_default h.names hparse hfunctionType htext rfl⟩
    | some function =>
      obtain ⟨value, -, -, hget⟩ := getAs_given h (type_of_find hfunctionType) htext
      exact ⟨value, hget⟩
  · cases htext : textOf line (ascii "args") with
    | none =>
      rw [given_absent htext]
      exact getAs_default h.names hparse hargsType htext rfl
    | some args =>
      obtain ⟨value, hgiven, -, hget⟩ := getAs_given h (type_of_find hargsType) htext
      rw [hget, hgiven]
      rfl

theorem esdt_data (cfg : NetworkConfig) (nonce : UInt64) (sender receiver : Address)
    (gasPrice : UInt64) (payment : TokenPayment) (calls : List TokenBuilderCall) :
    ∃ told built, Told told calls ∧
      (TokenTransfer.esdt payment).build cfg nonce sender receiver gasPrice calls = .ok built ∧
      built.data = some (Fields.join (chr '@') esdtTransferPrefix
        (payment.esdtFields.map Hex.stringToHex ++ told.contractCall.fields)) := by
  obtain ⟨told, htold, hbuild⟩ := TokenTransfer.build_eq cfg nonce sender receiver gasPrice calls
    (.esdt payment)
  exact ⟨told, _, htold, hbuild,
    stringToBytesPtr_payload (TokenTransfer.name_plain (.esdt payment)).2 _ _⟩

theorem transferESDT_ok (h : Accepted initOptionsTransfer line result) (config : Config)
    (cfg : NetworkConfig) {key : ISecretKey} {sender : Address}
    (hsender : key.getAddress = .ok sender) {token : Bytes}
    (htoken : textOf line (ascii "token") = some token) {value : BigUInt}
    (hvalue : BigUInt.ofString ((given line (ascii "value") .string).getD (ascii "0")) =
      .ok value) {receiver : Address}
    (hreceiver : (given line (ascii "receiver") .string).map Address.ofBech32Address =
      some (.ok receiver)) :
    ∃ signed, transferESDT result config cfg (.ok key) = .ok signed ∧
      signed.data = some (Fields.join (chr '@') esdtTransferPrefix
        ((TokenPayment.fungibleFromBigUInt token value 0).esdtFields.map Hex.stringToHex ++
          (given line (ascii "args") .strings).getD [[]])) := by
  obtain ⟨hreadToken, ⟨function, hfunction⟩, hargs⟩ := read_transfer h htoken
  have hoptions : textOf line (ascii "options") = none := absent_of_find h (by decide +kernel)
  obtain ⟨tx, htx, -, htxValue, htxReceiver⟩ := @createTransaction_ok _ _ _ h
    declares_initOptions.2 value hvalue (some receiver) hreceiver hoptions config
  obtain ⟨told, built, htold, hbuild, hdata⟩ := esdt_data cfg tx.nonce sender receiver tx.gasPrice
    (.fungibleFromBigUInt token value 0) []
  have hbuilt : ((TransactionFactory.new cfg).createESDTTransfer
      (.fungibleFromBigUInt token value 0) tx.nonce sender receiver tx.gasPrice).build =
        .ok built := hbuild
  have hfields : told.contractCall.fields = [] := htold.contractCall
  rw [hfields, List.append_nil] at hdata
  simp only [transferESDT, readTransfer, assembleTransfer, hreadToken, hfunction, hargs, htx,
    htxValue, hsender, htxReceiver, hbuilt, hdata, bind, Except.bind]
  refine ⟨_, rfl, congrArg some ?_⟩
  rw [Fields.join_append, List.foldl_append_eq_append, ← List.flatMap_def]
  split
  · rfl
  · rename_i hempty
    rw [Bool.not_eq_true, Bool.not_eq_false', List.isEmpty_iff] at hempty
    rw [hempty, List.flatMap_nil, List.append_nil]

/-- The handler never signs the data that the library builds. -/
theorem transferESDT_differs (config : Config) (cfg : NetworkConfig)
    (hline : (line.map Prod.fst).Nodup) (hparse : canParse initOptionsTransfer line = .ok result)
    {key : ISecretKey} {sender : Address} (hsender : key.getAddress = .ok sender) {token : Bytes}
    (htoken : textOf line (ascii "token") = some token) {value : BigUInt}
    (hvalue : BigUInt.ofString ((given line (ascii "value") .string).getD (ascii "0")) =
      .ok value) {receiver : Address}
    (hreceiver : (given line (ascii "receiver") .string).map Address.ofBech32Address =
      some (.ok receiver)) {call : Option (Bytes × List Bytes)} (hcall : AsksCall line call)
    (nonce gasPrice : UInt64) :
    ∃ signed built, transferESDT result config cfg (.ok key) = .ok signed ∧
      (TokenTransfer.esdt (.fungibleFromBigUInt token value 0)).build cfg nonce sender receiver
        gasPrice (builderCalls call) = .ok built ∧
      ¬ (signed.data = built.data ∧ signed.gasLimit = built.gasLimit) := by
  obtain ⟨signed, hsigned, hdata⟩ := transferESDT_ok ⟨nodup_initOptions.2, hline, hparse⟩ config
    cfg hsender htoken hvalue hreceiver
  obtain ⟨told, built, htold, hbuild, hbuilt⟩ := esdt_data cfg nonce sender receiver gasPrice
    (.fungibleFromBigUInt token value 0) (builderCalls call)
  rw [told_builderCalls hcall htold] at hbuilt
  refine ⟨signed, built, hsigned, hbuild, fun hsame => ?_⟩
  exact transfer_data_ne hcall _ _ (Option.some.inj (hdata.symm.trans (hsame.1.trans hbuilt)))

end Transfer

def buyLine : CommandLine :=
  [(ascii "receiver", ascii "erd1cux02zersde0l7hhklzhywcxk4u9n4py5tdxyx7vrvhnza2r4gmq4vw35r"),
    (ascii "token", ascii "ALICE-5627f1"), (ascii "value", ascii "10"),
    (ascii "function", ascii "buy"), (ascii "args", ascii "0a,3f6f")]

theorem transferESDT_differs_buy : ∃ result signed built,
    canParse initOptionsTransfer buyLine = .ok result ∧
      transferESDT result ⟨ascii "T", []⟩ mainnet (.ok ⟨.ok alice, .ok aliceSeed⟩) = .ok signed ∧
      (TokenTransfer.esdt (.fungibleFromBigUInt (ascii "ALICE-5627f1") (.ofNat 10) 0)).build
        mainnet 0 alice bob 0
        [.withContractCall (ascii "buy") [.string [0x0a], .string [0x3f, 0x6f]]] = .ok built ∧
      ¬ (signed.data = built.data ∧ signed.gasLimit = built.gasLimit) := by
  obtain ⟨result, hresult⟩ := exists_ok
    (show (canParse initOptionsTransfer buyLine).isOk = true by decide +kernel)
  have hcall : AsksCall buyLine (some (ascii "buy", [[0x0a], [0x3f, 0x6f]])) :=
    .withArgs (by decide) (by decide +kernel) (by decide +kernel)
  have htoken : textOf buyLine (ascii "token") = some (ascii "ALICE-5627f1") := by
    decide +kernel
  have hvalue : BigUInt.ofString ((given buyLine (ascii "value") .string).getD (ascii "0")) =
      .ok (.ofNat 10) := by decide +kernel
  have hreceiver : (given buyLine (ascii "receiver") .string).map Address.ofBech32Address =
      some (.ok bob) := by decide +kernel
  obtain ⟨signed, built, hsigned, hbuilt, hdiffers⟩ := transferESDT_differs ⟨ascii "T", []⟩ mainnet
    (by decide +kernel) hresult (@rfl _ (ISecretKey.mk (.ok alice) (.ok aliceSeed)).getAddress) htoken
    hvalue hreceiver hcall 0 0
  exact ⟨result, signed, built, hresult, hsigned, hbuilt, hdiffers⟩

def plainTransfer : CommandLine :=
  [(ascii "receiver", ascii "erd1cux02zersde0l7hhklzhywcxk4u9n4py5tdxyx7vrvhnza2r4gmq4vw35r"),
    (ascii "token", ascii "ALICE-5627f1"), (ascii "value", ascii "10")]

theorem transferESDT_same_fails : ¬ ∀ (line : CommandLine) (result : ParseResult) (config : Config)
    (cfg : NetworkConfig) (key : ISecretKey) (sender : Address) (token : Bytes) (value : BigUInt)
    (receiver : Address) (call : Option (Bytes × List Bytes)) (nonce gasPrice : UInt64),
    (line.map Prod.fst).Nodup → canParse initOptionsTransfer line = .ok result →
    key.getAddress = .ok sender → textOf line (ascii "token") = some token →
    BigUInt.ofString ((given line (ascii "value") .string).getD (ascii "0")) = .ok value →
    (given line (ascii "receiver") .string).map Address.ofBech32Address = some (.ok receiver) →
    AsksCall line call →
    ∃ signed built, transferESDT result config cfg (.ok key) = .ok signed ∧
      (TokenTransfer.esdt (.fungibleFromBigUInt token value 0)).build cfg nonce sender receiver
        gasPrice (builderCalls call) = .ok built ∧
      signed.data = built.data ∧ signed.gasLimit = built.gasLimit := by
  intro h
  obtain ⟨result, hresult⟩ := exists_ok
    (show (canParse initOptionsTransfer plainTransfer).isOk = true by decide +kernel)
  have hline : (plainTransfer.map Prod.fst).Nodup := by decide +kernel
  have htoken : textOf plainTransfer (ascii "token") = some (ascii "ALICE-5627f1") := by
    decide +kernel
  have hvalue : BigUInt.ofString ((given plainTransfer (ascii "value") .string).getD (ascii "0")) =
      .ok (.ofNat 10) := by decide +kernel
  have hreceiver : (given plainTransfer (ascii "receiver") .string).map Address.ofBech32Address =
      some (.ok bob) := by decide +kernel
  have hcall : AsksCall plainTransfer none := .plain (by decide +kernel) (by decide +kernel)
  obtain ⟨signed, built, hsigned, hbuilt, hsame, -⟩ := h plainTransfer result ⟨ascii "T", []⟩
    mainnet ⟨.ok alice, .ok aliceSeed⟩ alice _ _ bob none 0 0 hline hresult rfl htoken hvalue hreceiver
    hcall
  obtain ⟨signed', hsigned', hdata⟩ := transferESDT_ok ⟨nodup_initOptions.2, hline, hresult⟩
    ⟨ascii "T", []⟩ mainnet (@rfl _ (ISecretKey.mk (.ok alice) (.ok aliceSeed)).getAddress) htoken hvalue
    hreceiver
  obtain ⟨told, built', htold, hbuilt', hbuiltData⟩ := esdt_data mainnet 0 alice bob 0
    (.fungibleFromBigUInt (ascii "ALICE-5627f1") (.ofNat 10) 0) (builderCalls none)
  rw [told_builderCalls hcall htold] at hbuiltData
  rw [Except.ok.inj (hsigned.symm.trans hsigned'), Except.ok.inj (hbuilt.symm.trans hbuilt')]
    at hsame
  exact transfer_data_ne hcall _ _
    (Option.some.inj (hdata.symm.trans (hsame.trans hbuiltData)))

end MxSdk.Cli
