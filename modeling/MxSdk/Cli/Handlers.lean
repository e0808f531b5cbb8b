import MxSdk.Cli.ArgHandler
import MxSdk.Cli.CliConfig
import MxSdk.Cli.CliHandler
import MxSdk.Provider.ProxyProvider
import MxSdk.Vendor.CppToml

/-! cli_handler.cpp and main.cpp: the commands as programs over the files, the terminal and
a gateway. An access to memory that is not there is no exception, so that nothing catches it. -/

namespace MxSdk

/-- What a program can reach: the files, and what was printed. -/
structure World where
  files : Files
  cerr : Bytes

abbrev CliProgram (α : Type) : Type := Http.Program World α

namespace World

def printed (w : World) (text : Bytes) : World := { w with cerr := w.cerr ++ text }

def print (text : Bytes) : CliProgram Unit := Script.modify (printed · text)

def written (w : World) (path content : Bytes) : World :=
  { w with files := Function.update w.files path (some content) }

/-- An `std::ofstream` writes over what was there. -/
def writeFile (path content : Bytes) : CliProgram Unit := Script.modify (written · path content)

end World

/-! cli/config/cliconfig.cpp -/

namespace CLIConfig

def networkConfigDefaultChainId : Bytes := ascii "T"
def networkConfigDefaultProxyUrl : Bytes := ascii "https://testnet-gateway.multiversx.com"

def defaultConfig : Cli.Config := ⟨networkConfigDefaultChainId, networkConfigDefaultProxyUrl⟩

def doesNotContain (filePath : Bytes) : Bytes :=
  ascii "File " ++ filePath ++ ascii " does not contain "

/-- The `try` block of `config`. -/
def readConfig [TomlParser] (t : CLIConfig) (files : Files) : Except Exception Cli.Config := do
  let data ← Toml.parseFile t.tomlPath (files t.tomlPath)
  let networkConfig := (Toml.Table.getQualifiedAs data (ascii "Config.CLIConfig")).getD []
  if networkConfig.isEmpty then
    throw (.runtimeError (doesNotContain t.tomlPath ++ ascii "[Config].CLIConfig table"))
  let some config := Toml.Table.getTable data networkConfig | throw .invalidAccess
  if !Toml.Table.contains config (ascii "ChainID") ||
      !Toml.Table.contains config (ascii "ProxyUrl") then
    throw (.runtimeError (doesNotContain t.tomlPath ++ ascii "ChainID/ProxyUrl field in [" ++
      networkConfig ++ ascii "] table"))
  .ok ⟨(Toml.Table.getAs config (ascii "ChainID")).getD [],
    (Toml.Table.getAs config (ascii "ProxyUrl")).getD []⟩

/-- With the escapes that switch to yellow and back. -/
def warning (e : Exception) : Bytes :=
  [0x1b] ++ ascii "[33mWarning: Could not load configuration, got exception: <" ++ e.what ++
    ascii ">, using default config." ++ [0x1b] ++ ascii "[0m\nChain ID: " ++
    networkConfigDefaultChainId ++ ascii "\nProxy url: " ++ networkConfigDefaultProxyUrl

def loadConfig [TomlParser] (t : CLIConfig) (files : Files) :
    Except Exception (Cli.Config × Bytes) :=
  match t.readConfig files with
  | .ok config => .ok (config, [])
  | .error .invalidAccess => throw .invalidAccess
  | .error e => .ok (defaultConfig, warning e)

def config [TomlParser] (t : CLIConfig) : CliProgram Cli.Config := do
  let world ← Script.get
  let (config, text) ← Script.lift (t.loadConfig world.files)
  World.print text
  pure config

def switchTo (t : CLIConfig) (network : Network) : CliProgram Unit := do
  let world ← Script.get
  let (outcome, files) := t.setNetwork network world.files
  Script.modify fun w => { w with files }
  Script.lift outcome

end CLIConfig

/-- `ITransactionBuilder::buildSigned`, with the builder that is run. -/
def buildSigned [Platform] [Sodium] (build : Except Exception Transaction) (seed : Bytes) :
    Except Exception Transaction := do
  let signer ← Signer.new seed
  let tx ← build
  tx.sign signer

namespace Cli
open Cxxopts

def errorMsgSodiumInit : Bytes := ascii "Could not initialize sodium library."

def esdtProperties (result : ArgvResult) : ESDTProperties where
  canFreeze := result.flags (ascii "can-freeze")
  canWipe := result.flags (ascii "can-wipe")
  canPause := result.flags (ascii "can-pause")
  canMint := result.flags (ascii "can-mint")
  canBurn := result.flags (ascii "can-burn")
  canChangeOwner := result.flags (ascii "can-change-owner")
  canUpgrade := result.flags (ascii "can-upgrade")
  canAddSpecialRoles := result.flags (ascii "can-add-roles")

/-- The names that are compared: small letters behind a capital. -/
def toLower (c : UInt8) : UInt8 := if chr 'A' ≤ c && c ≤ chr 'Z' then c + 32 else c

def toUpper (c : UInt8) : UInt8 := if chr 'a' ≤ c && c ≤ chr 'z' then c - 32 else c

def capitalized (network : Bytes) : Bytes :=
  match network.map toLower with
  | [] => []
  | c :: cs => toUpper c :: cs

def networkNamed (network : Bytes) : Except Exception Network :=
  if network = CLIConfig.toString .mainnet then .ok .mainnet
  else if network = CLIConfig.toString .devnet then .ok .devnet
  else if network = CLIConfig.toString .testnet then .ok .testnet
  else if network = CLIConfig.toString .local then .ok .local
  else throw (.invalidArgument (ascii "Invalid network: " ++ network))

section Handlers
variable [Platform] [Sodium] [WalletCrypto] [Httplib] [TomlParser]

def handleCreateSignedTransaction (cliConfig : CLIConfig) (result : ArgvResult) :
    CliProgram Unit := do
  let config ← cliConfig.config
  let world ← Script.get
  let path ← Script.lift (result.getAs (ascii "outfile") .string)
  let keyFile ← Script.lift (SecretKeyProvider.new world.files result.toParseResult)
  let transaction ← Script.lift (createTransaction result.toParseResult config)
  let transaction ← Script.lift (signTransaction transaction keyFile)
  let _file ← Script.lift (IFile.checkFile world.files path (ascii "json"))
  -- The file is emptied before there is a text for it.
  World.writeFile path []
  let text ← Script.lift transaction.serialize
  World.writeFile path text
  World.print (ascii "Transaction created and written successfully!\n")

/-- The commands that send a transaction. They read their options and the wallet, ask for the
configuration of the network, and only then make the transaction. -/
def sendTransaction (cliConfig : CLIConfig) (prepare : Config → Files →
    Except Exception (NetworkConfig → Except Exception Transaction)) : CliProgram Unit := do
  let config ← cliConfig.config
  let world ← Script.get
  let make ← Script.lift (prepare config world.files)
  let proxy : ProxyProvider := ⟨config.proxyUrl⟩
  let cfg ← proxy.getNetworkConfig
  let tx ← Script.lift (make cfg)
  let txHash ← proxy.send tx
  World.print (ascii "Transaction hash: " ++ txHash ++ ascii "\n")

def prepareIssue (result : ArgvResult) (config : Config) (files : Files) :
    Except Exception (NetworkConfig → Except Exception Transaction) := do
  let token ← result.getAs (ascii "token") .string
  let ticker ← result.getAs (ascii "ticker") .string
  let supply ← result.getAs (ascii "supply") .string
  let decimals ← result.getAs (ascii "dec") .uint32
  let keyFile ← SecretKeyProvider.new files result.toParseResult
  let tx ← createTransaction result.toParseResult config
  .ok fun cfg => do
    let txFactory := TransactionFactory.new cfg
    let createESDTIssue := do
      let (sender, initialSupply) ←
        Platform.both (ascii "createESDTIssue") keyFile.getAddress (BigUInt.ofString supply)
      txFactory.createESDTIssue tx.nonce sender tx.gasPrice token ticker initialSupply decimals
        (esdtProperties result)
    let (builder, seed) ← Platform.both (ascii "buildSigned") createESDTIssue keyFile.getSeed
    buildSigned (.ok builder.build) seed

def handleIssueESDT (cliConfig : CLIConfig) (result : ArgvResult) : CliProgram Unit :=
  sendTransaction cliConfig (prepareIssue result)

def runTransferESDT (cliConfig : CLIConfig) (result : ArgvResult) : CliProgram Unit :=
  sendTransaction cliConfig (prepareTransfer result.toParseResult)

def handleSetNetworkConfig (cliConfig : CLIConfig) (result : ArgvResult) : CliProgram Unit := do
  let network ← Script.lift (result.getAs (ascii "config") .string)
  let network := capitalized network
  let known ← Script.lift (networkNamed network)
  cliConfig.switchTo known
  let cfg ← cliConfig.config
  World.print (ascii "Config changed to: " ++ network ++ ascii "\n")
  World.print (ascii "ChainID = " ++ cfg.chainID ++ ascii "\n")
  World.print (ascii "ProxyUrl = " ++ cfg.proxyUrl ++ ascii "\n")

def handleRequest (cliConfig : CLIConfig) (parsedResult : ArgParsedResult) : CliProgram Unit :=
  match parsedResult.requestType with
  | .help => World.print parsedResult.help
  | .createSignedTransaction => handleCreateSignedTransaction cliConfig parsedResult.result
  | .issueESDT => handleIssueESDT cliConfig parsedResult.result
  | .transferESDT => runTransferESDT cliConfig parsedResult.result
  | .setNetworkConfig => handleSetNetworkConfig cliConfig parsedResult.result
  | .invalid => pure ()

variable [HelpTexts]

/-- The `try` block of `main`. -/
def tryMain (sodiumInit : Int) (cliConfig : CLIConfig) (argv : List Bytes) : CliProgram Unit := do
  Script.lift (if sodiumInit < 0 then throw (.runtimeError errorMsgSodiumInit) else .ok ())
  let result ← Script.lift (ArgHandler.parse argv)
  handleRequest cliConfig result

def main (sodiumInit : Int) (cliConfig : CLIConfig) (argv : List Bytes) : CliProgram Unit :=
  (tryMain sodiumInit cliConfig argv).handle fun e =>
    match e with
    | .invalidAccess => Script.lift (throw .invalidAccess)
    | e => World.print (e.what ++ ascii "\n")

end Handlers

end Cli

end MxSdk
