import MxSdk.Cli.Runs

/-! What a run of the tool does to the files and to the gateway. A transaction leaves the tool
complete, in the name of the wallet that was given. -/

namespace MxSdk.Cli
open Http ProxyProvider Transaction Cxxopts

section Owner
variable [Sodium]

def Owns (key : ISecretKey) : Prop :=
  ∀ seed address, key.getSeed = .ok seed → key.getAddress = .ok address →
    address.publicKey = (Sodium.seedKeypair seed).1

theorem length_of_signer {seed : Bytes} {signer : Signer} (h : Signer.new seed = .ok signer) :
    seed.length = seedLength ∧ signer.sk = Crypto.getSecretKey seed := by
  by_cases hlength : seed.length = seedLength
  · obtain ⟨signer', hsigner, hsk⟩ := Signer.new_ok hlength
    rw [hsigner] at h
    rw [← Except.ok.inj h]
    exact ⟨hlength, hsk⟩
  · rw [Signer.new, dif_pos hlength] at h
    cases h

variable [Platform]

/-- A transaction of a wallet. Others can read and verify it, where the address is that of the
seed. -/
structure SignedBy (key : ISecretKey) (chainId : Bytes) (tx : Transaction) (message : Bytes) :
    Prop where
  sender : ∃ address, key.getAddress = .ok address ∧ tx.sender = some address
  chainId : tx.chainId = chainId
  text : tx.serialize = .ok message
  received : deserialize default message = (.ok (), tx)
  verify : Sodium.Lawful → Owns key → tx.verify = .ok true

theorem signedBy_of_sign {key : ISecretKey} {seed : Bytes} {signer : Signer} {address : Address}
    {plain tx : Transaction} (hseed : key.getSeed = .ok seed) (hsigner : Signer.new seed = .ok signer)
    (haddress : key.getAddress = .ok address) (hsender : plain.sender = some address)
    (h : plain.sign signer = .ok tx) : ∃ message, SignedBy key plain.chainId tx message := by
  obtain ⟨message, hmessage⟩ := serialize_of_sign h
  obtain ⟨m, hm, h⟩ := bind_eq_ok h
  obtain rfl := Except.ok.inj h
  obtain ⟨hlength, hsk⟩ := length_of_signer hsigner
  refine ⟨message, ?_⟩
  exact
    { sender := ⟨address, haddress, hsender⟩
      chainId := rfl
      text := hmessage
      received := deserialize_default hmessage
      verify := fun hsodium howns =>
        verify_signed hsodium hlength hsk hsender (howns _ _ hseed haddress) hm }

theorem signedBy_of_signTransaction {key : ISecretKey} {plain tx : Transaction}
    (h : signTransaction plain key = .ok tx) : ∃ message, SignedBy key plain.chainId tx message := by
  obtain ⟨seed, address, signer, hseed, haddress, hsigner, h⟩ := signTransaction_ok h
  have hsender : ({ plain with sender := some address } : Transaction).sender = some address := rfl
  have hsigned := signedBy_of_sign hseed hsigner haddress hsender h
  exact hsigned

theorem signedBy_of_buildSigned {key : ISecretKey} {seed : Bytes} {plain tx : Transaction}
    {address : Address} (hseed : key.getSeed = .ok seed) (haddress : key.getAddress = .ok address)
    (hsender : plain.sender = some address) (h : buildSigned (.ok plain) seed = .ok tx) :
    ∃ message, SignedBy key plain.chainId tx message := by
  obtain ⟨signer, hsigner, h⟩ := bind_eq_ok h
  exact signedBy_of_sign hseed hsigner haddress hsender h

end Owner

section Tool
variable [Platform] [Sodium] [WalletCrypto]

def issueTransaction (files : Files) (result : ArgvResult) (config : Config)
    (cfg : NetworkConfig) : Except Exception Transaction := do
  let make ← prepareIssue result config files
  make cfg

inductive Made (files : Files) (result : ArgvResult) (config : Config) (cfg : NetworkConfig)
    (tx : Transaction) : Command → Prop where
  | issue (h : issueTransaction files result config cfg = .ok tx) :
      Made files result config cfg tx .issueESDT
  | transfer (h : handleTransferESDT files result.toParseResult config cfg = .ok tx) :
      Made files result config cfg tx .transferESDT

variable {files : Files} {result : ArgvResult} {config : Config} {cfg : NetworkConfig}
  {tx : Transaction}

omit [Platform] [Sodium] [WalletCrypto] in
theorem createTransaction_chainId {p : ParseResult}
    (h : createTransaction p config = .ok tx) : tx.chainId = config.chainID := by
  rw [createTransaction] at h
  obtain ⟨nonce, -, h⟩ := bind_eq_ok h
  obtain ⟨value, -, h⟩ := bind_eq_ok h
  obtain ⟨receiver, -, h⟩ := bind_eq_ok h
  obtain ⟨receiverUserName, -, h⟩ := bind_eq_ok h
  obtain ⟨senderUserName, -, h⟩ := bind_eq_ok h
  obtain ⟨gasPrice, -, h⟩ := bind_eq_ok h
  obtain ⟨gasLimit, -, h⟩ := bind_eq_ok h
  obtain ⟨data, -, h⟩ := bind_eq_ok h
  obtain ⟨version, -, h⟩ := bind_eq_ok h
  obtain ⟨options, -, h⟩ := bind_eq_ok h
  rw [← Except.ok.inj h]

omit [Platform] [Sodium] [WalletCrypto] in
theorem assembleTransfer_chainId {token : Bytes} {args : List Bytes} {plain : Transaction}
    {key : ISecretKey} (h : assembleTransfer token args plain key cfg = .ok tx) :
    tx.chainId = cfg.chainId := by
  obtain ⟨sender, -, h⟩ := bind_eq_ok h
  cases hreceiver : plain.receiver with
  | none =>
    rw [hreceiver] at h
    cases h
  | some receiver =>
    rw [hreceiver] at h
    obtain ⟨built, hbuilt, h⟩ := bind_eq_ok h
    obtain ⟨builder, -, hbuilt⟩ := bind_eq_ok hbuilt
    obtain ⟨payload, -, hbuilt⟩ := bind_eq_ok hbuilt
    obtain rfl := Except.ok.inj hbuilt
    cases hdata : (tokenTransaction _ _ _ _ _).data with
    | none =>
      rw [hdata] at h
      cases h
    | some data =>
      rw [hdata] at h
      rw [← Except.ok.inj h]
      rfl

theorem handleTransferESDT_signedBy {p : ParseResult}
    (h : handleTransferESDT files p config cfg = .ok tx) :
    ∃ key message, SecretKeyProvider.new files p = .ok key ∧
      SignedBy key cfg.chainId tx message := by
  obtain ⟨make, hmake, h⟩ := bind_eq_ok h
  obtain ⟨key, assemble, hread, rfl⟩ := prepareTransfer_ok hmake
  obtain ⟨token, args, plain, -, -, hkey, -, rfl⟩ := readTransfer_ok hread
  obtain ⟨assembled, hassembled, h⟩ := bind_eq_ok h
  obtain ⟨message, hsigned⟩ := signedBy_of_signTransaction h
  rw [assembleTransfer_chainId hassembled] at hsigned
  exact ⟨key, message, hkey, hsigned⟩

theorem issueTransaction_ok (h : issueTransaction files result config cfg = .ok tx) :
    ∃ token ticker supply decimals key plain sender initialSupply builder seed,
      result.getAs (ascii "token") .string = .ok token ∧
      result.getAs (ascii "ticker") .string = .ok ticker ∧
      result.getAs (ascii "supply") .string = .ok supply ∧
      result.getAs (ascii "dec") .uint32 = .ok decimals ∧
      SecretKeyProvider.new files result.toParseResult = .ok key ∧
      createTransaction result.toParseResult config = .ok plain ∧
      key.getAddress = .ok sender ∧ BigUInt.ofString supply = .ok initialSupply ∧
      (TransactionFactory.new cfg).createESDTIssue plain.nonce sender plain.gasPrice token ticker
        initialSupply decimals (esdtProperties result) = .ok builder ∧
      key.getSeed = .ok seed ∧ buildSigned (.ok builder.build) seed = .ok tx := by
  obtain ⟨make, hmake, h⟩ := bind_eq_ok h
  obtain ⟨token, htoken, hmake⟩ := bind_eq_ok hmake
  obtain ⟨ticker, hticker, hmake⟩ := bind_eq_ok hmake
  obtain ⟨supply, hsupply, hmake⟩ := bind_eq_ok hmake
  obtain ⟨decimals, hdecimals, hmake⟩ := bind_eq_ok hmake
  obtain ⟨key, hkey, hmake⟩ := bind_eq_ok hmake
  obtain ⟨plain, hplain, hmake⟩ := bind_eq_ok hmake
  obtain rfl := Except.ok.inj hmake
  obtain ⟨⟨builder, seed⟩, hboth, h⟩ := bind_eq_ok h
  obtain ⟨hbuilder, hseed⟩ := Platform.both_ok_iff.mp hboth
  obtain ⟨⟨sender, initialSupply⟩, hboth, hbuilder⟩ := bind_eq_ok hbuilder
  obtain ⟨hsender, hinitial⟩ := Platform.both_ok_iff.mp hboth
  exact ⟨token, ticker, supply, decimals, key, plain, sender, initialSupply, builder, seed, htoken,
    hticker, hsupply, hdecimals, hkey, hplain, hsender, hinitial, hbuilder, hseed, h⟩

theorem issueTransaction_signedBy (h : issueTransaction files result config cfg = .ok tx) :
    ∃ key message, SecretKeyProvider.new files result.toParseResult = .ok key ∧
      SignedBy key cfg.chainId tx message := by
  obtain ⟨_, _, _, _, key, plain, sender, _, builder, seed, -, -, -, -, hkey, -, hsender, -,
    hbuilder, hseed, h⟩ := issueTransaction_ok h
  obtain ⟨data, -, hbuilder⟩ := bind_eq_ok hbuilder
  obtain ⟨value, -, hbuilder⟩ := bind_eq_ok hbuilder
  obtain ⟨receiver, -, hbuilder⟩ := bind_eq_ok hbuilder
  obtain rfl := Except.ok.inj hbuilder
  obtain ⟨message, hsigned⟩ := signedBy_of_buildSigned hseed hsender rfl h
  exact ⟨key, message, hkey, hsigned⟩

variable [Httplib] [TomlParser] [HelpTexts]

/-- What a run does: its conversation, and the files behind it. -/
inductive Effect (cliConfig : CLIConfig) (argv : List Bytes) (files : Files) :
    Conversation → Files → Prop where
  | nothing : Effect cliConfig argv files [] files
  | created {p : ArgvResult} {config : Config} {text path old message : Bytes} {key : ISecretKey}
      {plain tx : Transaction}
      (hparse : ArgHandler.parse argv = .ok ⟨.createSignedTransaction, [], p⟩)
      (hload : cliConfig.loadConfig files = .ok (config, text))
      (hkey : SecretKeyProvider.new files p.toParseResult = .ok key)
      (hplain : createTransaction p.toParseResult config = .ok plain)
      (hsign : signTransaction plain key = .ok tx)
      (hsigned : SignedBy key config.chainID tx message)
      (hpath : p.getAs (ascii "outfile") .string = .ok path)
      (hold : IFile.checkFile files path (ascii "json") = .ok old) :
      Effect cliConfig argv files [] (Function.update files path (some message))
  | switched {p : ArgvResult} {name : Bytes} {network : Network} {files' : Files}
      (hparse : ArgHandler.parse argv = .ok ⟨.setNetworkConfig, [], p⟩)
      (hasked : networkAsked p = .ok (name, network))
      (hset : cliConfig.setNetwork network files = (.ok (), files')) :
      Effect cliConfig argv files [] files'
  | asked {config : Config} {text : Bytes}
      (hload : cliConfig.loadConfig files = .ok (config, text)) (res : LibResult) :
      Effect cliConfig argv files [(getConfig config, res)] files
  | sent {c : Command} {p : ArgvResult} {config : Config} {text message : Bytes}
      {key : ISecretKey} {cfg : NetworkConfig} {tx : Transaction} {res : LibResult}
      (hparse : ArgHandler.parse argv = .ok ⟨c.requestType, [], p⟩)
      (hload : cliConfig.loadConfig files = .ok (config, text))
      (hkey : SecretKeyProvider.new files p.toParseResult = .ok key)
      (hcfg : readNetworkConfig (wrappedResult res) = .ok cfg)
      (hmade : Made files p config cfg tx c) (hsigned : SignedBy key cfg.chainId tx message)
      (res' : LibResult) :
      Effect cliConfig argv files
        [(getConfig config, res), (postTransaction config message, res')] files

variable {cliConfig : CLIConfig} {argv : List Bytes} {w w' : World} {tr : Conversation}
  {outcome : Except Exception Unit}

theorem effect_of_sendRun {c : Command} {p : ArgvResult}
    {prepare : Config → Files → Except Exception (NetworkConfig → Except Exception Transaction)}
    (hparse : ArgHandler.parse argv = .ok ⟨c.requestType, [], p⟩)
    (hprepare : ∀ config make cfg tx, prepare config w.files = .ok make → make cfg = .ok tx →
      Made w.files p config cfg tx c ∧ ∃ key message,
        SecretKeyProvider.new w.files p.toParseResult = .ok key ∧
        SignedBy key cfg.chainId tx message)
    (h : SendRun cliConfig prepare w tr outcome w') :
    Effect cliConfig argv w.files tr w'.files := by
  have sent {config : Config} {text message : Bytes} {res res' : LibResult}
      {make : NetworkConfig → Except Exception Transaction} {cfg : NetworkConfig}
      {tx : Transaction} (hload : cliConfig.loadConfig w.files = .ok (config, text))
      (hmake : prepare config w.files = .ok make)
      (hcfg : readNetworkConfig (wrappedResult res) = .ok cfg) (htx : make cfg = .ok tx)
      (hmessage : tx.serialize = .ok message) : Effect cliConfig argv w.files
        [(getConfig config, res), (postTransaction config message, res')] w.files := by
    obtain ⟨hmade, key, message', hkey, hsigned⟩ := hprepare config make cfg tx hmake htx
    rw [Except.ok.inj (hmessage.symm.trans hsigned.text)]
    exact .sent hparse hload hkey hcfg hmade hsigned res'
  cases h with
  | noConfig _ => exact .nothing
  | notPrepared _ _ => exact .nothing
  | notConnected _ _ _ => exact .nothing
  | notMade hload _ res _ => exact .asked hload res
  | posted hload hmake hcfg htx hmessage _ _ => exact sent hload hmake hcfg htx hmessage
  | done hload hmake hcfg htx hmessage _ => exact sent hload hmake hcfg htx hmessage

theorem effect_of_createRun {p : ArgvResult}
    (hparse : ArgHandler.parse argv = .ok ⟨.createSignedTransaction, [], p⟩)
    (h : CreateRun cliConfig p w outcome w') : Effect cliConfig argv w.files [] w'.files := by
  cases h with
  | noConfig _ => exact .nothing
  | failed _ _ => exact .nothing
  | written hload hcreate hmessage =>
    obtain ⟨key, plain, old, hkey, hplain, hsign, hpath, hold⟩ := createSigned_ok hcreate
    obtain ⟨message', hsigned⟩ := signedBy_of_signTransaction hsign
    rw [createTransaction_chainId hplain] at hsigned
    obtain rfl := Except.ok.inj (hmessage.symm.trans hsigned.text)
    exact .created hparse hload hkey hplain hsign hsigned hpath hold

theorem effect_of_setRun {p : ArgvResult}
    (hparse : ArgHandler.parse argv = .ok ⟨.setNetworkConfig, [], p⟩)
    (h : SetRun cliConfig p w outcome w') : Effect cliConfig argv w.files [] w'.files := by
  cases h with
  | notNamed _ => exact .nothing
  | notFound _ h =>
    rw [CLIConfig.setNetwork_error h]
    exact .nothing
  | noConfig hasked hset _ => exact .switched hparse hasked hset
  | done hasked hset _ => exact .switched hparse hasked hset

theorem effect_of_handleRequest {r : ArgParsedResult} (hparse : ArgHandler.parse argv = .ok r)
    (h : (handleRequest cliConfig r).Runs w tr outcome w') :
    Effect cliConfig argv w.files tr w'.files := by
  have hcommand (c : Command) (hr : r.requestType = c.requestType) :
      ArgHandler.parse argv = .ok ⟨c.requestType, [], r.result⟩ := by
    rw [hparse, ← ArgHandler.eq_of_parse hparse hr]
  rw [handleRequest] at h
  cases hr : r.requestType with
  | help =>
    rw [hr] at h
    obtain ⟨rfl, -, rfl⟩ := Script.runs_modify_iff.mp h
    exact .nothing
  | invalid =>
    rw [hr] at h
    obtain ⟨rfl, -, rfl⟩ := Script.runs_pure_iff.mp h
    exact .nothing
  | createSignedTransaction =>
    rw [hr] at h
    obtain ⟨rfl, hrun⟩ := createRun_of_runs h
    exact effect_of_createRun (hcommand .createSignedTransaction hr) hrun
  | setNetworkConfig =>
    rw [hr] at h
    obtain ⟨rfl, hrun⟩ := setRun_of_runs h
    exact effect_of_setRun (hcommand .setNetworkConfig hr) hrun
  | issueESDT =>
    rw [hr] at h
    refine effect_of_sendRun (hcommand .issueESDT hr) (fun config make cfg tx hprepare htx => ?_)
      (sendRun_of_runs h)
    have hissue : issueTransaction w.files r.result config cfg = .ok tx := by
      rw [issueTransaction, hprepare]
      exact htx
    exact ⟨.issue hissue, issueTransaction_signedBy hissue⟩
  | transferESDT =>
    rw [hr] at h
    refine effect_of_sendRun (hcommand .transferESDT hr)
      (fun config make cfg tx hprepare htx => ?_) (sendRun_of_runs h)
    have htransfer :
        handleTransferESDT w.files r.result.toParseResult config cfg = .ok tx := by
      rw [handleTransferESDT, hprepare]
      exact htx
    exact ⟨.transfer htransfer, handleTransferESDT_signedBy htransfer⟩

theorem main_effect {sodiumInit : Int} (h : (main sodiumInit cliConfig argv).Runs w tr outcome w') :
    Effect cliConfig argv w.files tr w'.files := by
  obtain ⟨outcome₁, w₁, htry, hfiles⟩ := tryMain_of_main h
  rw [hfiles]
  rcases runs_tryMain htry with ⟨rfl, rfl, -⟩ | ⟨-, r, hparse, hrun⟩
  · exact .nothing
  · exact effect_of_handleRequest hparse hrun

end Tool

/-! A transfer of Alice's, with a gateway that answers what is expected. -/

@[reducible] def noTexts : HelpTexts := ⟨[], [], [], []⟩

/-- The tables of config.toml for one network, whatever the text. -/
@[reducible] def testnetToml : TomlParser where
  parse _ := .ok
    [(ascii "Config", .table [(ascii "CLIConfig", .string (ascii "Testnet"))]),
      (ascii "Testnet", .table [(ascii "ChainID", .string (ascii "T")),
        (ascii "ProxyUrl", .string (ascii "https://testnet-gateway.multiversx.com"))])]

def networkAnswer : Bytes :=
  ascii "\x7b\"data\":\x7b\"config\":\x7b\"erd_chain_id\":\"T\"," ++
    ascii "\"erd_gas_per_data_byte\":1500,\"erd_min_gas_limit\":50000," ++
    ascii "\"erd_min_gas_price\":1000000000\x7d\x7d,\"error\":\"\",\"code\":\"successful\"\x7d"

def sentAnswer : Bytes :=
  ascii "\x7b\"data\":\x7b\"txHash\":\"00\"\x7d,\"error\":\"\",\"code\":\"successful\"\x7d"

def gateway (_ : Conversation) : Http.Request → LibResult
  | .get _ _ => ⟨some ⟨200, networkAnswer⟩, true⟩
  | .post _ _ _ _ => ⟨some ⟨200, sentAnswer⟩, true⟩

def tomlConfig : CLIConfig := ⟨ascii "config.toml"⟩

def aliceWorld : World where
  files path := if path = tomlConfig.tomlPath then some [] else aliceFiles path
  cerr := []

def transferLine : CommandLine :=
  [(ascii "key", ascii "alice.pem"), (ascii "token", ascii "TKN-1"),
    (ascii "receiver", ascii "erd1qqqqqqqqqqqqqqqpqqqqqqqqqqqqqqqqqqqqqqqqqqqqqqqzllls8a5w6u"),
    (ascii "value", ascii "5")]

def transferArgv : List Bytes := Command.transferESDT.argvOf transferLine

abbrev mainOf (argv : List Bytes) : CliProgram Unit :=
  @main .arbitrary walletSodium aliceCrypto openHttplib testnetToml noTexts 0 tomlConfig argv

abbrev aliceMain : CliProgram Unit := mainOf transferArgv

def isPost : Http.Request → Bool
  | .get _ _ => false
  | .post _ _ _ _ => true

set_option maxRecDepth 100000 in
theorem posts_transfer :
    (Dialogue.play gateway [] (aliceMain aliceWorld)).1.map (fun exchange => isPost exchange.1) =
      [false, true] := by
  decide +kernel

theorem exists_transfer : ∃ tr outcome w' asked url path body contentType res,
    aliceMain.Runs aliceWorld tr outcome w' ∧
    tr = [asked, (.post url path body contentType, res)] := by
  obtain ⟨tr, outcome, w', hruns, hposts⟩ := Script.exists_runs gateway aliceMain aliceWorld
    (P := fun r => r.1.map (fun exchange => isPost exchange.1) = [false, true]) posts_transfer
  obtain ⟨asked, rest, rfl, -, hrest⟩ := List.map_eq_cons_iff.mp hposts
  obtain ⟨⟨request, res⟩, rest, rfl, hpost, hnil⟩ := List.map_eq_cons_iff.mp hrest
  obtain rfl := List.map_eq_nil_iff.mp hnil
  cases request with
  | get _ _ => cases hpost
  | post url path body contentType =>
    exact ⟨_, outcome, w', asked, url, path, body, contentType, res, hruns, rfl⟩

end MxSdk.Cli
