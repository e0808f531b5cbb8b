import MxSdk.Cli.Effects
import MxSdk.Transaction.IssuePayload

/-! From the words of a command line to the transaction that is written or sent for them. -/

namespace MxSdk.Cli
open Http ProxyProvider Transaction Cxxopts

/-! The options of the commands, each declared and given at most once. -/

theorem find_of_mem {options : List OptionDetails} {details : OptionDetails}
    (hnames : (options.map OptionDetails.longName).Nodup) (h : details ∈ options) :
    find options details.longName = some details := by
  have hsome : (find options details.longName).isSome :=
    List.find?_isSome.mpr ⟨details, h, decide_eq_true rfl⟩
  obtain ⟨found, hfound⟩ := Option.isSome_iff_exists.mp hsome
  obtain ⟨hmem, hname⟩ := mem_of_find hfound
  rw [hfound, List.inj_on_of_nodup_map hnames hmem h hname]

def NumbersOptions (options : List OptionDetails) : Prop :=
  ∀ details ∈ find options (ascii "options"), details.type = .uint32

theorem declares_commands : Declares initOptionsIssue ∧ NumbersOptions initOptionsTx ∧
    NumbersOptions initOptionsTransfer ∧ NumbersOptions initOptionsIssue := by
  unfold Declares NumbersOptions
  decide +kernel

structure Line (c : Command) (argv : List Bytes) (line : CommandLine) : Prop where
  spelled : ∃ rest, argv = c.words ++ rest ∧ Spells c.options rest line []
  once : (line.map Prod.fst).Nodup

/-- The result that the commands read, whose arguments nobody reads again. -/
def valuedResult (c : Command) (line : CommandLine) (p : ArgvResult) : ParseResult :=
  { p.toParseResult with arguments := c.options.valuedPart line }

variable {c : Command} {argv : List Bytes} {line : CommandLine} {p : ArgvResult}

theorem gives_of_parse [HelpTexts] (hline : Line c argv line)
    (hparse : ArgHandler.parse argv = .ok ⟨c.requestType, [], p⟩) :
    Gives c.options line p ∧ ∀ arg ∈ line, arg.2 ≠ [] := by
  obtain ⟨⟨rest, rfl, hspells⟩, -⟩ := hline
  have hwords : Spells c.options (c.words ++ rest) line (c.words ++ []) := by
    have hword := c.isWord_words
    cases c <;> exact .word (hword _ (.head _)) (.word (hword _ (.tail _ (.head _))) hspells)
  rw [ArgHandler.parse_words] at hparse
  obtain ⟨p', hp', hp⟩ := map_eq_ok hparse
  obtain rfl : p' = p := (ArgParsedResult.mk.inj hp).2.2
  obtain ⟨hargv, -, hne⟩ := ArgHandler.canParse_ok_iff.mp hp'
  obtain ⟨-, hgives⟩ := gives_of_spells hwords hargv
  rw [hgives.arguments] at hne
  exact ⟨hgives, hne⟩

theorem accepted_of_parse [HelpTexts] (hline : Line c argv line)
    (hparse : ArgHandler.parse argv = .ok ⟨c.requestType, [], p⟩) :
    Accepted c.options.valued (c.options.valuedPart line) (valuedResult c line p) := by
  obtain ⟨hgives, hne⟩ := gives_of_parse hline hparse
  refine ⟨(List.nodup_append.mp c.options.nodup).1, ?_, ?_⟩
  · exact (List.filter_sublist.map Prod.fst).nodup hline.once
  · have hempty : checkEmptyValues (c.options.valuedPart line) = .ok () :=
      checkEmptyValues_ok_iff.mpr fun arg harg => hne arg (List.mem_of_mem_filter harg)
    rw [canParse, hgives.valued]
    simp only [bind, Except.bind, hempty]
    rfl

theorem carries_of_createTransaction {options : List OptionDetails} {result : ParseResult}
    {config : Config} {tx : Transaction} (h : Accepted options line result)
    (htypes : Declares options)
    (hoptions : NumbersOptions options)
    (htx : createTransaction result config = .ok tx) : Carries line config tx := by
  have hnone : textOf line (ascii "options") = none := by
    cases htext : textOf line (ascii "options") with
    | none => rfl
    | some text => exact absurd htx (createTransaction_options h hoptions htext config tx)
  have hget := htx
  rw [createTransaction] at hget
  obtain ⟨nonce, -, hget⟩ := bind_eq_ok hget
  obtain ⟨value, hvalue, hget⟩ := bind_eq_ok hget
  obtain ⟨receiver, hreceiver, hget⟩ := bind_eq_ok hget
  have hvalue : BigUInt.ofString ((given line (ascii "value") .string).getD (ascii "0")) =
      .ok value := by
    have hread := getUserInputOrDefault_eq h (htypes (ascii "value", .string) (by simp [declaredTypes]))
      (ascii "0")
    rw [TransactionInputWrapper.getValue, show Transaction.default.value.value = ascii "0" by
      decide +kernel] at hvalue
    simpa only [hread, bind, Except.bind] using hvalue
  have hreceiver : (given line (ascii "receiver") .string).map Address.ofBech32Address =
      receiver.map .ok := by
    have htype := htypes (ascii "receiver", .string) (by simp [declaredTypes])
    rw [TransactionInputWrapper.getReceiver] at hreceiver
    cases htext : textOf line (ascii "receiver") with
    | none =>
      rw [count_absent h.names (parse_of_canParse h.parsed) htext] at hreceiver
      rw [given_absent htext, ← Except.ok.inj hreceiver]
      rfl
    | some text =>
      obtain ⟨text', hgiven, hcount, hread⟩ := getAs_given h htype htext
      rw [hcount] at hreceiver
      simp only [hread, bind, Except.bind] at hreceiver
      cases haddress : Address.ofBech32Address text' with
      | error e =>
        rw [haddress] at hreceiver
        cases hreceiver
      | ok a =>
        rw [haddress] at hreceiver
        rw [hgiven, ← Except.ok.inj hreceiver]
        exact congrArg some haddress
  obtain ⟨tx', htx', hcarries, -⟩ := createTransaction_ok h htypes hvalue hreceiver hnone config
  rwa [Except.ok.inj (htx.symm.trans htx')]

theorem given_of_getAs {options : List OptionDetails} {result : ParseResult} {name : Bytes}
    {ty : OptionType} (h : Accepted options line result)
    (hmem : ⟨name, ty, none⟩ ∈ options) {value : ty.Val}
    (hget : result.getAs name ty = .ok value) : given line name ty = some value := by
  have hfind := find_of_mem h.names hmem
  cases htext : textOf line name with
  | some text =>
    obtain ⟨value', hgiven, -, hget'⟩ := getAs_given h (type_of_find hfind) htext
    rw [hgiven, Except.ok.inj (hget.symm.trans hget')]
  | none =>
    have hparse := parse_of_canParse h.parsed
    have hfinish := absent h.names hparse hfind (notMem_of_textOf htext)
    obtain ⟨-, -, -, hresult, -⟩ := parse_eq_ok hparse
    have hvalue : result.get name = .ok (result.values name) := by
      rw [ParseResult.get, hresult, hfind]
    have hnone : (result.values name).value = none := by
      rw [← Except.ok.inj hfinish]
      rfl
    rw [getAs_eq hvalue, OptionValue.as, hnone] at hget
    cases hget

theorem getD_of_getAs {options : List OptionDetails} {result : ParseResult} {name : Bytes}
    {ty : OptionType} (h : Accepted options line result) {default : Bytes}
    (hmem : ⟨name, ty, some default⟩ ∈ options) {defaultValue value : ty.Val}
    (hdefault : parseValue ty default = .ok defaultValue)
    (hget : result.getAs name ty = .ok value) : value = (given line name ty).getD defaultValue := by
  have hfind := find_of_mem h.names hmem
  cases htext : textOf line name with
  | some text =>
    obtain ⟨value', hgiven, -, hget'⟩ := getAs_given h (type_of_find hfind) htext
    rw [hgiven, Except.ok.inj (hget.symm.trans hget')]
    rfl
  | none =>
    have hget' := getAs_default h.names (parse_of_canParse h.parsed) hfind htext hdefault
    rw [given_absent htext, Except.ok.inj (hget.symm.trans hget')]
    rfl

/-! What the transactions are. -/

/-- The transaction of `esdt transfer`, up to the sender and the signature. -/
structure IsTransfer (line : CommandLine) (cfg : NetworkConfig) (tx : Transaction) : Prop where
  nonce : tx.nonce = (given line (ascii "nonce") .uint64).getD 0
  gasPrice : tx.gasPrice = (given line (ascii "gas-price") .uint64).getD 0
  value : tx.value = Transaction.default.value
  receiver : ∃ receiver, tx.receiver = some receiver ∧
    (given line (ascii "receiver") .string).map Address.ofBech32Address = some (.ok receiver)
  data : ∃ token amount data, given line (ascii "token") .string = some token ∧
    BigUInt.ofString ((given line (ascii "value") .string).getD (ascii "0")) = .ok amount ∧
    data = Fields.join (chr '@') esdtTransferPrefix
      ([token, BigEndian.bytes amount.toNat].map Hex.stringToHex ++
        (given line (ascii "args") .strings).getD [[]]) ∧
    tx.data = some data ∧ tx.gasLimit = (GasEstimator.mk cfg).forESDTTransfer (stringSize data)

def propertiesOf (line : CommandLine) : ESDTProperties :=
  let flag (name : Bytes) := (lastFlag (CLIOptions.issue.flagPart line) name).getD false
  { canFreeze := flag (ascii "can-freeze")
    canWipe := flag (ascii "can-wipe")
    canPause := flag (ascii "can-pause")
    canMint := flag (ascii "can-mint")
    canBurn := flag (ascii "can-burn")
    canChangeOwner := flag (ascii "can-change-owner")
    canUpgrade := flag (ascii "can-upgrade")
    canAddSpecialRoles := flag (ascii "can-add-roles") }

/-- The transaction of `esdt issue`, where `valued` are the options that are no flags. -/
structure IsIssue (line valued : CommandLine) (tx : Transaction) : Prop where
  nonce : tx.nonce = (given valued (ascii "nonce") .uint64).getD 0
  gasPrice : tx.gasPrice = (given valued (ascii "gas-price") .uint64).getD 0
  value : BigUInt.ofString esdtIssuanceValue = .ok tx.value
  receiver : tx.receiver = some issuance
  gasLimit : tx.gasLimit = esdtIssuanceGasLimit
  data : ∃ token ticker supply initialSupply decimals,
    given valued (ascii "token") .string = some token ∧
    given valued (ascii "ticker") .string = some ticker ∧
    given valued (ascii "supply") .string = some supply ∧
    BigUInt.ofString supply = .ok initialSupply ∧
    given valued (ascii "dec") .uint32 = some decimals ∧
    tx.data = some (Fields.join (chr '@') esdtIssuancePrefix
      (([token, ticker, BigEndian.bytes initialSupply.toNat, BigEndian.bytes decimals.toNat] ++
        (propertiesOf line).told).map Hex.stringToHex))

theorem append_args (name : Bytes) (fields args : List Bytes) :
    (if !args.isEmpty then args.foldl (fun txData arg => txData ++ (ascii "@" ++ arg))
      (Fields.join (chr '@') name fields) else Fields.join (chr '@') name fields) =
      Fields.join (chr '@') name (fields ++ args) := by
  rw [Fields.join_append, List.foldl_append_eq_append, ← List.flatMap_def]
  split
  · rfl
  · rename_i hempty
    rw [Bool.not_eq_true, Bool.not_eq_false', List.isEmpty_iff] at hempty
    rw [hempty, List.flatMap_nil, List.append_nil]

theorem assembleTransfer_fields {token : Bytes} {args : List Bytes} {plain tx : Transaction}
    {key : ISecretKey} {cfg : NetworkConfig}
    (h : assembleTransfer token args plain key cfg = .ok tx) : ∃ receiver data,
      plain.receiver = some receiver ∧ data = Fields.join (chr '@') esdtTransferPrefix
        ([token, BigEndian.bytes plain.value.toNat].map Hex.stringToHex ++ args) ∧
      tx.nonce = plain.nonce ∧ tx.gasPrice = plain.gasPrice ∧
      tx.value = Transaction.default.value ∧ tx.receiver = some receiver ∧ tx.data = some data ∧
      tx.gasLimit = (GasEstimator.mk cfg).forESDTTransfer (stringSize data) := by
  obtain ⟨sender, -, h⟩ := bind_eq_ok h
  cases hreceiver : plain.receiver with
  | none =>
    rw [hreceiver] at h
    cases h
  | some receiver =>
    rw [hreceiver] at h
    obtain ⟨built, hbuilt, h⟩ := bind_eq_ok h
    obtain ⟨told, built', htold, hbuild, hdata⟩ := esdt_data cfg plain.nonce sender receiver
      plain.gasPrice (.fungibleFromBigUInt token plain.value 0) []
    have hsame : built' = built := Except.ok.inj (hbuild.symm.trans hbuilt)
    have hcall : told.contractCall.fields = [] := htold.contractCall
    rw [hsame, hcall, List.append_nil] at hdata
    obtain ⟨builder, -, hbuilt⟩ := bind_eq_ok hbuilt
    obtain ⟨payload, -, hbuilt⟩ := bind_eq_ok hbuilt
    rw [← Except.ok.inj hbuilt] at hdata h
    simp only [hdata, append_args] at h
    rw [← Except.ok.inj h]
    exact ⟨receiver, _, rfl, rfl, rfl, rfl, rfl, rfl, rfl, rfl⟩

theorem valuedPart_eq {o : Options} (h : o.flags = []) (line : CommandLine) :
    o.valuedPart line = line := by
  rw [Options.valuedPart, h]
  exact List.filter_eq_self.mpr fun _ _ => decide_eq_true List.not_mem_nil

/-! The names of the networks. -/

def Names (text : Bytes) (network : Network) : Prop :=
  text.map toLower = (CLIConfig.toString network).map toLower

theorem toLower_toLower (c : UInt8) : toLower (toLower c) = toLower c :=
  forall_byte (P := fun c => toLower (toLower c) = toLower c) (by decide +kernel) c

theorem toLower_toUpper (c : UInt8) : toLower (toUpper c) = toLower c :=
  forall_byte (P := fun c => toLower (toUpper c) = toLower c) (by decide +kernel) c

theorem map_toLower_capitalized (text : Bytes) :
    (capitalized text).map toLower = text.map toLower := by
  cases text with
  | nil => rfl
  | cons c cs =>
    have htail : (cs.map toLower).map toLower = cs.map toLower := by
      rw [List.map_map]
      exact List.map_congr_left fun c _ => toLower_toLower c
    rw [capitalized, List.map_cons, List.map_cons, htail, toLower_toUpper, toLower_toLower]

theorem capitalized_toString (network : Network) :
    capitalized (CLIConfig.toString network) = CLIConfig.toString network := by
  cases network <;> decide +kernel

theorem networkNamed_eq_ok_iff {name : Bytes} {network : Network} :
    networkNamed name = .ok network ↔ name = CLIConfig.toString network := by
  constructor
  · intro h
    rw [networkNamed] at h
    split at h
    · rwa [← Except.ok.inj h]
    split at h
    · rwa [← Except.ok.inj h]
    split at h
    · rwa [← Except.ok.inj h]
    split at h
    · rwa [← Except.ok.inj h]
    · cases h
  · rintro rfl
    cases network <;> rfl

theorem networkNamed_capitalized_iff {text : Bytes} {network : Network} :
    networkNamed (capitalized text) = .ok network ↔ Names text network := by
  rw [networkNamed_eq_ok_iff, Names]
  constructor
  · intro h
    rw [← map_toLower_capitalized, h]
  · intro h
    rw [← capitalized_toString network, capitalized, capitalized, h]

theorem Names.unique {text : Bytes} {network network' : Network} (h : Names text network)
    (h' : Names text network') : network = network' :=
  Except.ok.inj
    ((networkNamed_capitalized_iff.mpr h).symm.trans (networkNamed_capitalized_iff.mpr h'))

section Tool
variable [Platform] [Sodium] [WalletCrypto] [HelpTexts] {files : Files} {config : Config}
  {cfg : NetworkConfig} {tx : Transaction}

omit [WalletCrypto] [HelpTexts] in
theorem signTransaction_eq {key : ISecretKey} {plain : Transaction}
    (h : signTransaction plain key = .ok tx) : ∃ sender signature,
      tx = { plain with sender := some sender, signature := some signature } := by
  obtain ⟨_, sender, _, -, -, -, h⟩ := signTransaction_ok h
  obtain ⟨m, -, h⟩ := bind_eq_ok h
  exact ⟨sender, _, (Except.ok.inj h).symm⟩

omit [WalletCrypto] [HelpTexts] in
theorem buildSigned_eq {plain : Transaction} {seed : Bytes}
    (h : buildSigned (.ok plain) seed = .ok tx) : ∃ signature,
      tx = { plain with signature := some signature } := by
  obtain ⟨signer, -, h⟩ := bind_eq_ok h
  obtain ⟨_, hbuilt, h⟩ := bind_eq_ok h
  obtain ⟨m, -, h⟩ := bind_eq_ok h
  obtain rfl := Except.ok.inj hbuilt
  exact ⟨_, (Except.ok.inj h).symm⟩

theorem isTransfer_of_handle (hline : Line .transferESDT argv line)
    (hparse : ArgHandler.parse argv = .ok ⟨.transferESDT, [], p⟩)
    (h : handleTransferESDT files p.toParseResult config cfg = .ok tx) :
    IsTransfer line cfg tx := by
  have haccepted := accepted_of_parse hline hparse
  rw [valuedPart_eq rfl line] at haccepted
  obtain ⟨make, hmake, h⟩ := bind_eq_ok h
  obtain ⟨key, assemble, hread, rfl⟩ := prepareTransfer_ok hmake
  obtain ⟨token, args, plain, htoken, hargs, -, hplain, rfl⟩ := readTransfer_ok hread
  obtain ⟨assembled, hassembled, h⟩ := bind_eq_ok h
  obtain ⟨sender, signature, rfl⟩ := signTransaction_eq h
  have hcarries := carries_of_createTransaction haccepted declares_initOptions.2
    declares_commands.2.2.1 hplain
  obtain ⟨receiver, data, hreceiver, hdata, hnonce, hprice, hvalue, hreceiver', hdata', hgas⟩ :=
    assembleTransfer_fields hassembled
  have hdeclared : ⟨ascii "token", .string, none⟩ ∈ initOptionsTransfer := by
    simp [initOptionsTransfer]
  have htoken := given_of_getAs haccepted hdeclared htoken
  have hdeclared : ⟨ascii "args", .strings, some []⟩ ∈ initOptionsTransfer := by
    simp [initOptionsTransfer]
  have hdefault : parseValue .strings [] = .ok [[]] := rfl
  have hargs := getD_of_getAs haccepted hdeclared hdefault hargs
  have hgiven := hcarries.receiver
  rw [hreceiver] at hgiven
  subst hargs
  exact
    { nonce := hnonce.trans hcarries.nonce
      gasPrice := hprice.trans hcarries.gasPrice
      value := hvalue
      receiver := ⟨receiver, hreceiver', hgiven⟩
      data := ⟨token, plain.value, data, htoken, hcarries.value, hdata, hdata', hgas⟩ }

omit [Platform] [Sodium] [WalletCrypto] [HelpTexts] in
theorem createESDTIssue_fields {t : TransactionFactory} {nonce : UInt64} {sender : Address}
    {gasPrice : UInt64} {token ticker : Bytes} {initialSupply : BigUInt} {numOfDecimals : UInt32}
    {esdtProperties : ESDTProperties} {builder : TransactionEGLDTransferBuilder}
    (h : t.createESDTIssue nonce sender gasPrice token ticker initialSupply numOfDecimals
      esdtProperties = .ok builder) :
    builder.build.nonce = nonce ∧ builder.build.gasPrice = gasPrice ∧
      BigUInt.ofString esdtIssuanceValue = .ok builder.build.value ∧
      builder.build.receiver = some issuance ∧ builder.build.gasLimit = esdtIssuanceGasLimit ∧
      builder.build.data = some (Fields.join (chr '@') esdtIssuancePrefix
        (([token, ticker, BigEndian.bytes initialSupply.toNat,
          BigEndian.bytes numOfDecimals.toNat] ++ esdtProperties.told).map Hex.stringToHex)) := by
  obtain ⟨data, hdata, h⟩ := bind_eq_ok h
  obtain ⟨value, hvalue, h⟩ := bind_eq_ok h
  obtain ⟨receiver, hreceiver, h⟩ := bind_eq_ok h
  obtain rfl := Except.ok.inj h
  have hissuance : receiver = issuance :=
    Except.ok.inj (hreceiver.symm.trans (Address.ofBech32Address_text issuance))
  have hjoin := Except.ok.inj (hdata.symm.trans (ESDTIssuePayloadBuilder.build_join _))
  have hgas : esdtIssuanceGasLimit ≠ 0 := by decide
  refine ⟨rfl, rfl, hvalue, congrArg some hissuance, ?_, ?_⟩
  · rw [(egld_build _).2]
    exact if_neg hgas
  change stringToBytesPtr data = _
  rw [hjoin, stringToBytesPtr, if_neg]
  · rfl
  · rw [List.isEmpty_iff, Fields.join, List.append_eq_nil_iff]
    exact fun hnil => absurd hnil.1 (by decide)

theorem isIssue_of_issueTransaction (hline : Line .issueESDT argv line)
    (hparse : ArgHandler.parse argv = .ok ⟨.issueESDT, [], p⟩)
    (h : issueTransaction files p config cfg = .ok tx) :
    IsIssue line (CLIOptions.issue.valuedPart line) tx := by
  have haccepted := accepted_of_parse hline hparse
  obtain ⟨hgives, -⟩ := gives_of_parse hline hparse
  have hflags : esdtProperties p = propertiesOf line := by
    simp only [esdtProperties, propertiesOf, hgives.flags]
    rfl
  obtain ⟨token, ticker, supply, decimals, key, plain, sender, initialSupply, builder, seed,
    htoken, hticker, hsupply, hdecimals, -, hplain, -, hinitial, hbuilder, -, h⟩ :=
    issueTransaction_ok h
  obtain ⟨signature, rfl⟩ := buildSigned_eq h
  obtain ⟨hnonce, hprice, hvalue, hreceiver, hgas, hdata⟩ := createESDTIssue_fields hbuilder
  have hcarries : Carries (CLIOptions.issue.valuedPart line) config plain :=
    carries_of_createTransaction haccepted declares_commands.1 declares_commands.2.2.2 hplain
  have given {name : Bytes} {ty : OptionType} {value : ty.Val}
      (hmem : ⟨name, ty, none⟩ ∈ initOptionsIssue) (hget : p.getAs name ty = .ok value) :
      given (CLIOptions.issue.valuedPart line) name ty = some value :=
    given_of_getAs haccepted hmem hget
  rw [hflags] at hdata
  exact
    { nonce := hnonce.trans hcarries.nonce
      gasPrice := hprice.trans hcarries.gasPrice
      value := hvalue
      receiver := hreceiver
      gasLimit := hgas
      data := ⟨token, ticker, supply, initialSupply, decimals,
        given (by simp [initOptionsIssue]) htoken,
        given (by simp [initOptionsIssue]) hticker,
        given (by simp [initOptionsIssue]) hsupply, hinitial,
        given (by simp [initOptionsIssue]) hdecimals, hdata⟩ }

/-! The runs. -/

omit [Platform] [Sodium] [WalletCrypto] in
theorem command_eq {d : Command} (hline : Line c argv line)
    (hparse : ArgHandler.parse argv = .ok ⟨d.requestType, [], p⟩) : d = c := by
  obtain ⟨⟨rest, rfl, -⟩, -⟩ := hline
  rw [ArgHandler.parse_words] at hparse
  obtain ⟨p', -, hp⟩ := map_eq_ok hparse
  exact Command.requestType_injective (ArgParsedResult.mk.inj hp).1.symm

inductive Sends (line : CommandLine) (cfg : NetworkConfig) (tx : Transaction) : Command → Prop where
  | issue (h : IsIssue line (CLIOptions.issue.valuedPart line) tx) : Sends line cfg tx .issueESDT
  | transfer (h : IsTransfer line cfg tx) : Sends line cfg tx .transferESDT

theorem Made.sends (hline : Line c argv line)
    (hparse : ArgHandler.parse argv = .ok ⟨c.requestType, [], p⟩)
    (h : Made files p config cfg tx c) : Sends line cfg tx c := by
  cases h with
  | issue h => exact .issue (isIssue_of_issueTransaction hline hparse h)
  | transfer h => exact .transfer (isTransfer_of_handle hline hparse h)

variable [Httplib] [TomlParser]

/-- A posted body is the transaction of the command line for the network that the gateway named,
from the wallet of the command line. -/
theorem main_sends (sodiumInit : Int) (cliConfig : CLIConfig) (c : Command) (argv : List Bytes)
    (line : CommandLine) (w w' : World) (tr : Conversation) (outcome : Except Exception Unit) :
    Line c argv line → (main sodiumInit cliConfig argv).Runs w tr outcome w' →
    ∀ url path body contentType res, (.post url path body contentType, res) ∈ tr →
      ∃ p config text key cfg tx answer,
        ArgHandler.parse argv = .ok ⟨c.requestType, [], p⟩ ∧
        cliConfig.loadConfig w.files = .ok (config, text) ∧
        SecretKeyProvider.new w.files p.toParseResult = .ok key ∧
        tr = [(getConfig config, answer), (postTransaction config body, res)] ∧
        readNetworkConfig (wrappedResult answer) = .ok cfg ∧ SignedBy key cfg.chainId tx body ∧
        Sends line cfg tx c := by
  intro hline hrun url path body contentType res hmem
  have hget {config : Config} : getConfig config ≠ .post url path body contentType := by
    rw [getConfig]
    exact nofun
  have heffect := main_effect hrun
  generalize w'.files = files' at heffect
  cases heffect with
  | nothing => cases hmem
  | created _ _ _ _ _ _ _ _ => cases hmem
  | switched _ _ _ => cases hmem
  | asked _ _ =>
    exact absurd (Prod.mk.inj (List.mem_singleton.mp hmem)).1.symm hget
  | @sent c' p config text message key cfg tx answer hparse hload hkey hcfg hmade hsigned res' =>
    obtain rfl := command_eq hline hparse
    rcases List.mem_cons.mp hmem with hmem | hmem
    · exact absurd (Prod.mk.inj hmem).1.symm hget
    · obtain ⟨hpost, rfl⟩ := Prod.mk.inj (List.mem_singleton.mp hmem)
      obtain ⟨-, -, rfl, -⟩ := Http.Request.post.inj hpost
      exact ⟨p, config, text, key, cfg, tx, answer, hparse, hload, hkey, rfl, hcfg, hsigned,
        hmade.sends hline hparse⟩

/-- A run of `transaction new` leaves the files as they were, or writes the transaction of the
command line to the file that it names. -/
theorem main_creates (sodiumInit : Int) (cliConfig : CLIConfig) (argv : List Bytes)
    (line : CommandLine) (w w' : World) (tr : Conversation) (outcome : Except Exception Unit) :
    Line .createSignedTransaction argv line →
    (main sodiumInit cliConfig argv).Runs w tr outcome w' → w'.files ≠ w.files →
      ∃ p config text path key plain tx message,
        ArgHandler.parse argv = .ok ⟨.createSignedTransaction, [], p⟩ ∧
        cliConfig.loadConfig w.files = .ok (config, text) ∧
        SecretKeyProvider.new w.files p.toParseResult = .ok key ∧
        given line (ascii "outfile") .string = some path ∧
        w'.files = Function.update w.files path (some message) ∧ Carries line config plain ∧
        signTransaction plain key = .ok tx ∧ SignedBy key config.chainID tx message := by
  intro hline hrun hfiles
  have heffect := main_effect hrun
  generalize w'.files = files' at heffect hfiles ⊢
  cases heffect with
  | nothing => exact absurd rfl hfiles
  | asked _ _ => exact absurd rfl hfiles
  | sent _ _ _ _ _ _ _ => exact absurd rfl hfiles
  | switched hparse _ _ => cases command_eq (d := .setNetworkConfig) hline hparse
  | created hparse hload hkey hplain hsign hsigned hpath hold =>
    have haccepted := accepted_of_parse (c := .createSignedTransaction) hline hparse
    rw [valuedPart_eq rfl line] at haccepted
    have hdeclared : ⟨ascii "outfile", .string, none⟩ ∈ initOptionsTx := by simp [initOptionsTx]
    exact ⟨_, _, _, _, _, _, _, _, hparse, hload, hkey,
      given_of_getAs haccepted hdeclared hpath, rfl,
      carries_of_createTransaction haccepted declares_initOptions.1 declares_commands.2.1 hplain,
      hsign, hsigned⟩

omit [Platform] [Sodium] [WalletCrypto] [Httplib] [TomlParser] in
theorem networkAsked_ok_iff (hline : Line .setNetworkConfig argv line)
    (hparse : ArgHandler.parse argv = .ok ⟨.setNetworkConfig, [], p⟩) {network : Network} :
    (∃ name, networkAsked p = .ok (name, network)) ↔
      ∃ text, given line (ascii "config") .string = some text ∧ Names text network := by
  have haccepted := accepted_of_parse (c := .setNetworkConfig) hline hparse
  rw [valuedPart_eq rfl line] at haccepted
  constructor
  · rintro ⟨name, h⟩
    obtain ⟨text, htext, h⟩ := bind_eq_ok h
    obtain ⟨network', hnamed, h⟩ := bind_eq_ok h
    obtain ⟨-, rfl⟩ := Prod.mk.inj (Except.ok.inj h)
    exact ⟨text, given_of_getAs haccepted List.mem_cons_self htext,
      networkNamed_capitalized_iff.mp hnamed⟩
  · rintro ⟨text, hgiven, hnames⟩
    cases htext : textOf line (ascii "config") with
    | none =>
      rw [given_absent htext] at hgiven
      cases hgiven
    | some typed =>
      have hdeclared := find_of_mem haccepted.names
        (List.mem_cons_self : (⟨ascii "config", .string, none⟩ : OptionDetails) ∈ initOptionsNetwork)
      obtain ⟨text', hgiven', -, hget⟩ := getAs_given haccepted (type_of_find hdeclared) htext
      obtain rfl := Option.some.inj (hgiven.symm.trans hgiven')
      have hget : p.getAs (ascii "config") .string = .ok text := hget
      refine ⟨capitalized text, ?_⟩
      rw [networkAsked, hget]
      simp only [bind, Except.bind, networkNamed_capitalized_iff.mpr hnames]

/-- `network set` edits the line with the key, where the line of the command names a network
in any letter case, and does nothing elsewhere. -/
theorem main_sets (sodiumInit : Int) (cliConfig : CLIConfig) (argv : List Bytes)
    (line : CommandLine) (w w' : World) (tr : Conversation) (outcome : Except Exception Unit)
    (p : ArgvResult) :
    Line .setNetworkConfig argv line → 0 ≤ sodiumInit →
    ArgHandler.parse argv = .ok ⟨.setNetworkConfig, [], p⟩ →
    (main sodiumInit cliConfig argv).Runs w tr outcome w' → tr = [] ∧
      (∀ text network content before old after,
        given line (ascii "config") .string = some text → Names text network →
        w.files cliConfig.tomlPath = some content →
        CLIConfig.lines content = before ++ old :: after →
        (∀ l ∈ before, ¬ CLIConfig.key <:+: l) → CLIConfig.key <:+: old →
        w'.files = cliConfig.written w.files
          (CLIConfig.unlines (before ++ CLIConfig.newLine network :: after))) ∧
      ((¬ ∃ text network content, given line (ascii "config") .string = some text ∧
        Names text network ∧ w.files cliConfig.tomlPath = some content ∧
        ∃ l ∈ CLIConfig.lines content, CLIConfig.key <:+: l) → w'.files = w.files) := by
  intro hline hinit hparse hrun
  obtain ⟨outcome₁, w₁, htry, hfiles⟩ := tryMain_of_main hrun
  rw [hfiles]
  rcases runs_tryMain htry with ⟨-, -, e, -, ⟨hneg, -⟩ | he⟩ | ⟨-, r, hparse', hrun'⟩
  · exact absurd hinit (Int.not_le.mpr hneg)
  · cases he.symm.trans hparse
  obtain rfl := Except.ok.inj (hparse.symm.trans hparse')
  obtain ⟨rfl, hset⟩ := setRun_of_runs hrun'
  refine ⟨rfl, fun text network content before old after hgiven hnames hcontent hlines hbefore
    hold => ?_, fun hnone => ?_⟩
  · have hedit := @CLIConfig.setNetwork_of_first cliConfig w.files _ _ _ _ hlines hbefore
      hold network
    rw [CLIConfig.written_eq_self hcontent] at hedit
    have hsame {name : Bytes} {network' : Network}
        (hasked : networkAsked p = .ok (name, network')) : network' = network := by
      obtain ⟨text', hgiven', hnames'⟩ := (networkAsked_ok_iff hline hparse).mp ⟨name, hasked⟩
      rw [Option.some.inj (hgiven'.symm.trans hgiven)] at hnames'
      exact hnames'.unique hnames
    cases hset with
    | notNamed h =>
      obtain ⟨name, hasked⟩ := (networkAsked_ok_iff hline hparse).mpr ⟨text, hgiven, hnames⟩
      cases h.symm.trans hasked
    | notFound hasked h =>
      rw [hsame hasked, hedit] at h
      cases congrArg Prod.fst h
    | noConfig hasked h _ | done hasked h _ =>
      rw [hsame hasked, hedit] at h
      exact (congrArg Prod.snd h).symm
  · have hnot {name : Bytes} {network : Network} {files : Files}
        (hasked : networkAsked p = .ok (name, network)) :
        cliConfig.setNetwork network w.files ≠ (.ok (), files) := by
      intro h
      obtain ⟨text, hgiven, hnames⟩ := (networkAsked_ok_iff hline hparse).mp ⟨name, hasked⟩
      obtain ⟨content, before, old, after, hcontent, hlines, -, hold, -⟩ := CLIConfig.setNetwork_ok h
      exact hnone ⟨text, network, content, hgiven, hnames, hcontent, old,
        hlines ▸ List.mem_append_right _ List.mem_cons_self, hold⟩
    cases hset with
    | notNamed _ => rfl
    | notFound _ h => exact CLIConfig.setNetwork_error h
    | noConfig hasked h _ | done hasked h _ => exact absurd h (hnot hasked)

end Tool

theorem line_spell {c : Command} {line : CommandLine} (hline : c.options.CanSpell line)
    (honce : (line.map Prod.fst).Nodup) : Line c (c.argvOf line) line := by
  have hspells := spells_spell hline Spells.nil
  rw [List.append_nil] at hspells
  exact ⟨⟨c.options.spell line, rfl, hspells⟩, honce⟩

theorem main_sends_transfer : ∃ tr outcome w' url path body contentType res cfg tx,
    aliceMain.Runs aliceWorld tr outcome w' ∧ (.post url path body contentType, res) ∈ tr ∧
    @Transaction.serialize .arbitrary tx = .ok body ∧ Sends transferLine cfg tx .transferESDT := by
  obtain ⟨tr, outcome, w', asked, url, path, body, contentType, res, hruns, rfl⟩ := exists_transfer
  have hmem : ((.post url path body contentType, res) : Http.Request × LibResult) ∈
      [asked, (.post url path body contentType, res)] := List.mem_cons_of_mem _ List.mem_cons_self
  obtain ⟨p, config, text, key, cfg, tx, answer, -, -, -, -, -, ⟨-, -, htext, -⟩, hsends⟩ :=
    @main_sends .arbitrary walletSodium aliceCrypto noTexts openHttplib testnetToml 0 tomlConfig
      .transferESDT transferArgv transferLine aliceWorld w' _ outcome
      (line_spell (by decide +kernel) (by decide +kernel)) hruns url path body contentType res hmem
  exact ⟨_, outcome, w', url, path, body, contentType, res, cfg, tx, hruns, hmem, htext, hsends⟩

/-! A transaction of Alice's, for a file that exists. -/

def outfile : Bytes := ascii "tx.json"

def createLine : CommandLine :=
  [(ascii "key", ascii "alice.pem"), (ascii "value", ascii "5"), (ascii "nonce", ascii "7"),
    (ascii "receiver", ascii "erd1qqqqqqqqqqqqqqqpqqqqqqqqqqqqqqqqqqqqqqqqqqqqqqqzllls8a5w6u"),
    (ascii "gas-price", ascii "1000000000"), (ascii "gas-limit", ascii "50000"),
    (ascii "outfile", outfile)]

def createArgv : List Bytes := Command.createSignedTransaction.argvOf createLine

def outfileWorld : World where
  files path := if path = outfile then some [] else aliceWorld.files path
  cerr := []

set_option maxRecDepth 100000 in
theorem main_creates_alice : ∃ tr outcome w', (mainOf createArgv).Runs outfileWorld tr outcome w' ∧
    ∃ path message, given createLine (ascii "outfile") .string = some path ∧
      w'.files = Function.update outfileWorld.files path (some message) := by
  have hwrites : (Dialogue.play gateway [] (mainOf createArgv outfileWorld)).2.2.files outfile ≠
      some [] := by decide +kernel
  obtain ⟨tr, outcome, w', hruns, hwritten⟩ := Script.exists_runs gateway (mainOf createArgv)
    outfileWorld (P := fun r => r.2.2.files outfile ≠ some []) hwrites
  have hempty : outfileWorld.files outfile = some [] := by simp [outfileWorld]
  have hfiles : w'.files ≠ outfileWorld.files := fun hsame =>
    hwritten ((congrFun hsame outfile).trans hempty)
  obtain ⟨p, config, text, path, key, plain, tx, message, -, -, -, hpath, hfiles, -⟩ :=
    @main_creates .arbitrary walletSodium aliceCrypto noTexts openHttplib testnetToml 0 tomlConfig
      createArgv createLine outfileWorld w' tr outcome
      (line_spell (by decide +kernel) (by decide +kernel)) hruns hfiles
  exact ⟨tr, outcome, w', hruns, path, message, hpath, hfiles⟩

/-! A network that is named in capitals. -/

def networkLine : CommandLine := [(ascii "config", ascii "DEVNET")]

def networkArgv : List Bytes := Command.setNetworkConfig.argvOf networkLine

def configText : Bytes := ascii "CLIConfig = \"Testnet\"" ++ ascii "\n"

def networkWorld : World where
  files path := if path = tomlConfig.tomlPath then some configText else none
  cerr := []

set_option maxRecDepth 100000 in
theorem main_sets_devnet : ∃ tr outcome w', (mainOf networkArgv).Runs networkWorld tr outcome w' ∧
    w'.files = tomlConfig.written networkWorld.files (ascii "CLIConfig = \"Devnet\"" ++ ascii "\n") := by
  have hparses : (ArgHandler.canParse networkArgv CLIOptions.network).isOk = true := by
    decide +kernel
  obtain ⟨p, hp⟩ := exists_ok hparses
  have hparse : @ArgHandler.parse noTexts networkArgv = .ok ⟨.setNetworkConfig, [], p⟩ := by
    rw [networkArgv, Command.argvOf, @ArgHandler.parse_words noTexts]
    exact congrArg (Except.map _) hp
  obtain ⟨tr, outcome, w', hruns, -⟩ := Script.exists_runs gateway (mainOf networkArgv)
    networkWorld (P := fun _ => True) trivial
  have hsets := (@main_sets .arbitrary walletSodium aliceCrypto noTexts openHttplib testnetToml 0
    tomlConfig networkArgv networkLine networkWorld w' tr outcome p
    (line_spell (by decide +kernel) (by decide +kernel)) le_rfl hparse hruns).2.1
  have hnames : Names (ascii "DEVNET") .devnet := by
    unfold Names
    decide +kernel
  have hfiles := hsets (ascii "DEVNET") .devnet configText [] (ascii "CLIConfig = \"Testnet\"") [[]]
    (by decide +kernel) hnames (by decide +kernel) (by decide +kernel) nofun (by decide +kernel)
  have htext : CLIConfig.unlines ([] ++ CLIConfig.newLine .devnet :: [[]]) =
      ascii "CLIConfig = \"Devnet\"" ++ ascii "\n" := by decide +kernel
  rw [htext] at hfiles
  exact ⟨tr, outcome, w', hruns, hfiles⟩

end MxSdk.Cli
