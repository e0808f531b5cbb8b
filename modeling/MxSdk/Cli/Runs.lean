import MxSdk.Cli.Handlers
import MxSdk.Provider.Answers

/-! What each command does in a run: the requests it puts, what it prints, the files it
leaves behind and how it ends. -/

namespace MxSdk
open Http

section Config
variable [TomlParser] {t : CLIConfig} {w w' : World} {tr : Conversation}

theorem CLIConfig.runs_config_iff {outcome : Except Exception Cli.Config} :
    t.config.Runs w tr outcome w' ↔ tr = [] ∧
      ((∃ e, t.loadConfig w.files = .error e ∧ outcome = .error e ∧ w' = w) ∨
        ∃ config text, t.loadConfig w.files = .ok (config, text) ∧ outcome = .ok config ∧
          w' = w.printed text) := by
  rw [config, Script.runs_get_bind_iff, Script.runs_lift_bind_iff]
  constructor
  · rintro (⟨e, he, rfl, rfl, rfl⟩ | ⟨⟨config, text⟩, hload, h⟩)
    · exact ⟨rfl, .inl ⟨e, he, rfl, rfl⟩⟩
    · change (pure config : CliProgram _).Runs (w.printed text) tr outcome w' at h
      obtain ⟨rfl, rfl, rfl⟩ := Script.runs_pure_iff.mp h
      exact ⟨rfl, .inr ⟨config, text, hload, rfl, rfl⟩⟩
  · rintro ⟨rfl, ⟨e, he, rfl, rfl⟩ | ⟨config, text, hload, rfl, rfl⟩⟩
    · exact .inl ⟨e, he, rfl, rfl, rfl⟩
    · exact .inr ⟨(config, text), hload, Script.runs_modify_bind_iff.mpr
        (Script.runs_pure_iff.mpr ⟨rfl, rfl, rfl⟩)⟩

theorem CLIConfig.runs_config_bind {α : Type} {f : Cli.Config → CliProgram α}
    {outcome : Except Exception α} (h : (t.config >>= f).Runs w tr outcome w') :
    (∃ e, t.loadConfig w.files = .error e ∧ tr = [] ∧ outcome = .error e ∧ w' = w) ∨
      ∃ config text, t.loadConfig w.files = .ok (config, text) ∧
        (f config).Runs (w.printed text) tr outcome w' := by
  rcases Script.runs_bind_iff.mp h with ⟨e, rfl, h₁⟩ | ⟨config, w₁, t₁, t₂, rfl, h₁, h₂⟩
  · obtain ⟨rfl, ⟨e', he', he, rfl⟩ | ⟨_, _, _, he, -⟩⟩ := runs_config_iff.mp h₁
    · exact .inl ⟨e', he', rfl, congrArg Except.error (Except.error.inj he), rfl⟩
    · cases he
  · obtain ⟨rfl, ⟨_, _, hc, -⟩ | ⟨config', text, hload, hc, rfl⟩⟩ := runs_config_iff.mp h₁
    · cases hc
    · rw [Except.ok.inj hc] at h₂
      exact .inr ⟨config', text, hload, h₂⟩

omit [TomlParser] in
theorem CLIConfig.runs_switchTo_bind {α : Type} {network : Network} {f : Unit → CliProgram α}
    {outcome : Except Exception α} {set : Except Exception Unit} {files : Files}
    (hset : t.setNetwork network w.files = (set, files))
    (h : (t.switchTo network >>= f).Runs w tr outcome w') :
    (∃ e, set = .error e ∧ tr = [] ∧ outcome = .error e ∧ w' = ⟨files, w.cerr⟩) ∨
      set = .ok () ∧ (f ()).Runs ⟨files, w.cerr⟩ tr outcome w' := by
  have heq : (t.switchTo network : CliProgram Unit) w = .done (set, ⟨files, w.cerr⟩) := by
    simp only [switchTo, bind, Script.bind, Script.get, Dialogue.bind, hset]
    rfl
  have hruns : (Script.modify (fun w => ⟨files, w.cerr⟩) >>= fun _ => Script.lift set >>= f :
      CliProgram α).Runs w tr outcome w' := by
    rw [Script.Runs] at h ⊢
    change (Script.bind (t.switchTo network) f w).Runs _ _ at h
    rw [Script.bind, heq] at h
    exact h
  rw [Script.runs_modify_bind_iff, Script.runs_lift_bind_iff] at hruns
  rcases hruns with ⟨e, rfl, rfl, rfl, rfl⟩ | ⟨_, rfl, hruns⟩
  · exact .inl ⟨e, rfl, rfl, rfl, rfl⟩
  · exact .inr ⟨rfl, hruns⟩

end Config

namespace Cli
open ProxyProvider Transaction Cxxopts

variable [Platform] [Sodium] [WalletCrypto] [Httplib] [TomlParser]

def getConfig (config : Config) : Http.Request :=
  .get (cString config.proxyUrl) (ascii "/network/config")

def postTransaction (config : Config) (message : Bytes) : Http.Request :=
  .post (cString config.proxyUrl) (ascii "/transaction/send") message contentTypeJson

def transactionHash (txHash : Bytes) : Bytes := ascii "Transaction hash: " ++ txHash ++ ascii "\n"

/-- The runs of a command that sends a transaction, by the point where they end. -/
inductive SendRun (cliConfig : CLIConfig)
    (prepare : Config → Files → Except Exception (NetworkConfig → Except Exception Transaction))
    (w : World) : Conversation → Except Exception Unit → World → Prop where
  | noConfig {e : Exception} (h : cliConfig.loadConfig w.files = .error e) :
      SendRun cliConfig prepare w [] (.error e) w
  | notPrepared {config : Config} {text : Bytes} {e : Exception}
      (hload : cliConfig.loadConfig w.files = .ok (config, text))
      (h : prepare config w.files = .error e) :
      SendRun cliConfig prepare w [] (.error e) (w.printed text)
  | notConnected {config : Config} {text : Bytes}
      {make : NetworkConfig → Except Exception Transaction} {e : Exception}
      (hload : cliConfig.loadConfig w.files = .ok (config, text))
      (hprepare : prepare config w.files = .ok make)
      (h : Httplib.newClient (cString config.proxyUrl) = .error e) :
      SendRun cliConfig prepare w [] (.error e) (w.printed text)
  | notMade {config : Config} {text : Bytes} {make : NetworkConfig → Except Exception Transaction}
      {e : Exception} (hload : cliConfig.loadConfig w.files = .ok (config, text))
      (hprepare : prepare config w.files = .ok make)
      (res : LibResult) (h : (do
        let cfg ← readNetworkConfig (wrappedResult res)
        let tx ← make cfg
        tx.serialize) = .error e) :
      SendRun cliConfig prepare w [(getConfig config, res)] (.error e) (w.printed text)
  | posted {config : Config} {text : Bytes} {make : NetworkConfig → Except Exception Transaction}
      (hload : cliConfig.loadConfig w.files = .ok (config, text))
      (hprepare : prepare config w.files = .ok make) {res : LibResult} {cfg : NetworkConfig}
      (hcfg : readNetworkConfig (wrappedResult res) = .ok cfg) {tx : Transaction}
      (htx : make cfg = .ok tx) {message : Bytes} (hmessage : tx.serialize = .ok message)
      (res' : LibResult) {e : Exception} (h : readTxHash (wrappedResult res') = .error e) :
      SendRun cliConfig prepare w
        [(getConfig config, res), (postTransaction config message, res')] (.error e)
        (w.printed text)
  | done {config : Config} {text : Bytes} {make : NetworkConfig → Except Exception Transaction}
      (hload : cliConfig.loadConfig w.files = .ok (config, text))
      (hprepare : prepare config w.files = .ok make) {res : LibResult} {cfg : NetworkConfig}
      (hcfg : readNetworkConfig (wrappedResult res) = .ok cfg) {tx : Transaction}
      (htx : make cfg = .ok tx) {message : Bytes} (hmessage : tx.serialize = .ok message)
      {res' : LibResult} {txHash : Bytes} (h : readTxHash (wrappedResult res') = .ok txHash) :
      SendRun cliConfig prepare w
        [(getConfig config, res), (postTransaction config message, res')] (.ok ())
        ((w.printed text).printed (transactionHash txHash))

variable {cliConfig : CLIConfig}
  {prepare : Config → Files → Except Exception (NetworkConfig → Except Exception Transaction)}
  {w w' : World} {tr : Conversation} {outcome : Except Exception Unit}

omit [Sodium] [WalletCrypto] [TomlParser] in
theorem runs_make_iff {config : Config} {cfg : NetworkConfig}
    {make : NetworkConfig → Except Exception Transaction}
    (hnew : Httplib.newClient (cString config.proxyUrl) = .ok ())
    (h : (do
      let tx ← Script.lift (make cfg)
      let txHash ← (ProxyProvider.mk config.proxyUrl).send tx
      World.print (transactionHash txHash) : CliProgram Unit).Runs w tr outcome w') :
    (tr = [] ∧ w' = w ∧ ∃ e, (make cfg >>= serialize) = .error e ∧ outcome = .error e) ∨
      ∃ tx message res, make cfg = .ok tx ∧ tx.serialize = .ok message ∧
        tr = [(postTransaction config message, res)] ∧
        ((∃ e, readTxHash (wrappedResult res) = .error e ∧ outcome = .error e ∧ w' = w) ∨
          ∃ txHash, readTxHash (wrappedResult res) = .ok txHash ∧ outcome = .ok () ∧
            w' = w.printed (transactionHash txHash)) := by
  rcases Script.runs_lift_bind_iff.mp h with ⟨e, he, rfl, rfl, rfl⟩ | ⟨tx, htx, h₁⟩
  · exact .inl ⟨rfl, rfl, e, by rw [he]; rfl, rfl⟩
  rcases Script.runs_bind_iff.mp h₁ with ⟨e, rfl, h₂⟩ | ⟨txHash, w₁, t₁, t₂, rfl, h₂, h₃⟩
  · obtain ⟨rfl, ⟨e', hrefused | ⟨-, he'⟩, rfl, he⟩ | ⟨-, message, res, hmessage, rfl, hread⟩⟩ :=
      runs_send_iff.mp h₂
    · cases hnew.symm.trans hrefused
    · rw [Except.error.inj he]
      exact .inl ⟨rfl, rfl, e', by rw [htx]; exact he', rfl⟩
    · exact .inr ⟨tx, message, res, htx, hmessage, rfl, .inl ⟨e, hread.symm, rfl, rfl⟩⟩
  · obtain ⟨rfl, ⟨_, _, _, he⟩ | ⟨-, message, res, hmessage, rfl, hread⟩⟩ := runs_send_iff.mp h₂
    · cases he
    obtain ⟨rfl, rfl, rfl⟩ := Script.runs_modify_iff.mp h₃
    rw [List.append_nil]
    exact .inr ⟨tx, message, res, htx, hmessage, rfl, .inr ⟨txHash, hread.symm, rfl, rfl⟩⟩

omit [Sodium] [WalletCrypto] in
theorem sendRun_of_runs (h : (sendTransaction cliConfig prepare).Runs w tr outcome w') :
    SendRun cliConfig prepare w tr outcome w' := by
  rw [sendTransaction] at h
  rcases CLIConfig.runs_config_bind h with ⟨e, he, rfl, rfl, rfl⟩ | ⟨config, text, hload, h₁⟩
  · exact .noConfig he
  rw [Script.runs_get_bind_iff, Script.runs_lift_bind_iff] at h₁
  rcases h₁ with ⟨e, he, rfl, rfl, rfl⟩ | ⟨make, hprepare, h₁⟩
  · exact .notPrepared hload he
  have hpath : cString (ascii "/network/config") = ascii "/network/config" := by decide +kernel
  rcases Script.runs_bind_iff.mp h₁ with ⟨e, rfl, h₂⟩ | ⟨cfg, w₁, t₁, t₂, rfl, h₂, h₃⟩
  · obtain ⟨rfl, ⟨e', he', rfl, he⟩ | ⟨hnew, res, rfl, he⟩⟩ := runs_request_iff.mp h₂
    · rw [Except.error.inj he]
      exact .notConnected hload hprepare he'
    · rw [hpath]
      exact .notMade hload hprepare res (by rw [← he]; rfl)
  · obtain ⟨rfl, ⟨_, _, _, he⟩ | ⟨hnew, res, rfl, hcfg⟩⟩ := runs_request_iff.mp h₂
    · cases he
    rw [hpath]
    rcases runs_make_iff hnew h₃ with ⟨rfl, rfl, e, he, rfl⟩ |
      ⟨tx, message, res', htx, hmessage, rfl, ⟨e, he, rfl, rfl⟩ | ⟨txHash, hread, rfl, rfl⟩⟩
    · exact .notMade hload hprepare res (by rw [← hcfg]; exact he)
    · exact .posted hload hprepare hcfg.symm htx hmessage res' he
    · exact .done hload hprepare hcfg.symm htx hmessage hread

def createdMessage : Bytes := ascii "Transaction created and written successfully!\n"

def createSigned (result : ArgvResult) (config : Config) (files : Files) :
    Except Exception (Bytes × Transaction) := do
  let path ← result.getAs (ascii "outfile") .string
  let keyFile ← SecretKeyProvider.new files result.toParseResult
  let transaction ← createTransaction result.toParseResult config
  let transaction ← signTransaction transaction keyFile
  let _file ← IFile.checkFile files path (ascii "json")
  .ok (path, transaction)

inductive CreateRun (cliConfig : CLIConfig) (result : ArgvResult) (w : World) :
    Except Exception Unit → World → Prop where
  | noConfig {e : Exception} (h : cliConfig.loadConfig w.files = .error e) :
      CreateRun cliConfig result w (.error e) w
  | failed {config : Config} {text : Bytes} {e : Exception}
      (hload : cliConfig.loadConfig w.files = .ok (config, text))
      (h : createSigned result config w.files = .error e) :
      CreateRun cliConfig result w (.error e) (w.printed text)
  | written {config : Config} {text path message : Bytes} {tx : Transaction}
      (hload : cliConfig.loadConfig w.files = .ok (config, text))
      (hcreate : createSigned result config w.files = .ok (path, tx))
      (hmessage : tx.serialize = .ok message) :
      CreateRun cliConfig result w (.ok ())
        (((w.printed text).written path message).printed createdMessage)

omit [WalletCrypto] [Httplib] [TomlParser] in
theorem serialize_of_sign {tx tx' : Transaction} {signer : Signer}
    (h : tx.sign signer = .ok tx') : ∃ message, tx'.serialize = .ok message := by
  obtain ⟨m, hm, h⟩ := bind_eq_ok h
  obtain ⟨text, htext, -⟩ := text_of_getSerializedTxMsg hm
  rw [← Except.ok.inj h]
  exact serialize_signed htext (signer.getSignature m)

omit [Httplib] [TomlParser] in
theorem createSigned_ok {result : ArgvResult} {config : Config} {files : Files} {path : Bytes}
    {tx : Transaction} (h : createSigned result config files = .ok (path, tx)) :
    ∃ key plain old, SecretKeyProvider.new files result.toParseResult = .ok key ∧
      createTransaction result.toParseResult config = .ok plain ∧
      signTransaction plain key = .ok tx ∧ result.getAs (ascii "outfile") .string = .ok path ∧
      IFile.checkFile files path (ascii "json") = .ok old := by
  obtain ⟨path', hpath, h⟩ := bind_eq_ok h
  obtain ⟨key, hkey, h⟩ := bind_eq_ok h
  obtain ⟨plain, hplain, h⟩ := bind_eq_ok h
  obtain ⟨tx', hsign, h⟩ := bind_eq_ok h
  obtain ⟨old, hold, h⟩ := bind_eq_ok h
  obtain ⟨rfl, rfl⟩ := Prod.mk.inj (Except.ok.inj h)
  exact ⟨key, plain, old, hkey, hplain, hsign, hpath, hold⟩

omit [Httplib] [TomlParser] in
theorem serialize_of_createSigned {result : ArgvResult} {config : Config} {files : Files}
    {path : Bytes} {tx : Transaction} (h : createSigned result config files = .ok (path, tx)) :
    ∃ message, tx.serialize = .ok message := by
  obtain ⟨key, plain, old, -, -, hsign, -⟩ := createSigned_ok h
  obtain ⟨_, _, _, -, -, -, hsign⟩ := signTransaction_ok hsign
  exact serialize_of_sign hsign

omit [Platform] [Sodium] [WalletCrypto] [Httplib] [TomlParser] in
theorem World.written_written (w : World) (path content content' : Bytes) :
    (w.written path content).written path content' = w.written path content' :=
  congrArg (World.mk · w.cerr) (Function.update_idem _ _ _)

omit [Httplib] in
theorem createRun_of_runs {result : ArgvResult}
    (h : (handleCreateSignedTransaction cliConfig result).Runs w tr outcome w') :
    tr = [] ∧ CreateRun cliConfig result w outcome w' := by
  have heq : handleCreateSignedTransaction cliConfig result = (do
      let config ← cliConfig.config
      let world ← Script.get
      let created ← Script.lift (createSigned result config world.files)
      World.writeFile created.1 []
      let text ← Script.lift created.2.serialize
      World.writeFile created.1 text
      World.print createdMessage) := by
    simp only [createSigned, Script.lift_bind_bind]
    rfl
  rw [heq] at h
  rcases CLIConfig.runs_config_bind h with ⟨e, he, rfl, rfl, rfl⟩ | ⟨config, text, hload, h⟩
  · exact ⟨rfl, .noConfig he⟩
  rw [Script.runs_get_bind_iff, Script.runs_lift_bind_iff] at h
  rcases h with ⟨e, he, rfl, rfl, rfl⟩ | ⟨⟨path, tx⟩, hcreate, h⟩
  · exact ⟨rfl, .failed hload he⟩
  obtain ⟨message, hmessage⟩ := serialize_of_createSigned hcreate
  rw [World.writeFile, Script.runs_modify_bind_iff, Script.runs_lift_bind_iff] at h
  rcases h with ⟨e, he, -⟩ | ⟨message', hmessage', h⟩
  · cases hmessage.symm.trans he
  rw [World.writeFile, Script.runs_modify_bind_iff, World.print, Script.runs_modify_iff,
    World.written_written] at h
  obtain ⟨rfl, rfl, rfl⟩ := h
  exact ⟨rfl, .written hload hcreate hmessage'⟩

def changedMessage (network : Bytes) (cfg : Config) : Bytes :=
  ascii "Config changed to: " ++ network ++ ascii "\n" ++
    (ascii "ChainID = " ++ cfg.chainID ++ ascii "\n" ++
      (ascii "ProxyUrl = " ++ cfg.proxyUrl ++ ascii "\n"))

def networkAsked (result : ArgvResult) : Except Exception (Bytes × Network) := do
  let network ← result.getAs (ascii "config") .string
  .ok (capitalized network, ← networkNamed (capitalized network))

inductive SetRun (cliConfig : CLIConfig) (result : ArgvResult) (w : World) :
    Except Exception Unit → World → Prop where
  | notNamed {e : Exception} (h : networkAsked result = .error e) :
      SetRun cliConfig result w (.error e) w
  | notFound {name : Bytes} {network : Network} {files : Files} {e : Exception}
      (hasked : networkAsked result = .ok (name, network))
      (h : cliConfig.setNetwork network w.files = (.error e, files)) :
      SetRun cliConfig result w (.error e) ⟨files, w.cerr⟩
  | noConfig {name : Bytes} {network : Network} {files : Files} {e : Exception}
      (hasked : networkAsked result = .ok (name, network))
      (hset : cliConfig.setNetwork network w.files = (.ok (), files))
      (h : cliConfig.loadConfig files = .error e) :
      SetRun cliConfig result w (.error e) ⟨files, w.cerr⟩
  | done {name : Bytes} {network : Network} {files : Files} {config : Config} {text : Bytes}
      (hasked : networkAsked result = .ok (name, network))
      (hset : cliConfig.setNetwork network w.files = (.ok (), files))
      (hload : cliConfig.loadConfig files = .ok (config, text)) :
      SetRun cliConfig result w (.ok ())
        ⟨files, w.cerr ++ (text ++ changedMessage name config)⟩

omit [Platform] [Sodium] [WalletCrypto] [Httplib] in
theorem setRun_of_runs {result : ArgvResult}
    (h : (handleSetNetworkConfig cliConfig result).Runs w tr outcome w') :
    tr = [] ∧ SetRun cliConfig result w outcome w' := by
  have heq : handleSetNetworkConfig cliConfig result = (do
      let asked ← Script.lift (networkAsked result)
      cliConfig.switchTo asked.2
      let cfg ← cliConfig.config
      World.print (ascii "Config changed to: " ++ asked.1 ++ ascii "\n")
      World.print (ascii "ChainID = " ++ cfg.chainID ++ ascii "\n")
      World.print (ascii "ProxyUrl = " ++ cfg.proxyUrl ++ ascii "\n")) := by
    simp only [networkAsked, Script.lift_bind_bind]
    rfl
  rw [heq, Script.runs_lift_bind_iff] at h
  rcases h with ⟨e, he, rfl, rfl, rfl⟩ | ⟨⟨name, network⟩, hasked, h⟩
  · exact ⟨rfl, .notNamed he⟩
  cases hset : cliConfig.setNetwork network w.files with | mk set files =>
  rcases CLIConfig.runs_switchTo_bind hset h with ⟨e, rfl, rfl, rfl, rfl⟩ | ⟨rfl, h⟩
  · exact ⟨rfl, .notFound hasked hset⟩
  rcases CLIConfig.runs_config_bind h with ⟨e, he, rfl, rfl, rfl⟩ | ⟨config, text, hload, h⟩
  · exact ⟨rfl, .noConfig hasked hset he⟩
  simp only [World.print, Script.runs_modify_bind_iff, Script.runs_modify_iff] at h
  obtain ⟨rfl, rfl, rfl⟩ := h
  have hdone := SetRun.done hasked hset hload
  rw [changedMessage, ← List.append_assoc, ← List.append_assoc, ← List.append_assoc] at hdone
  exact ⟨rfl, hdone⟩

variable [HelpTexts] {sodiumInit : Int} {argv : List Bytes}

/-- An exception is printed, and an invalid access is not caught. -/
theorem runs_main_iff : (main sodiumInit cliConfig argv).Runs w tr outcome w' ↔
    ∃ outcome₁ w₁, (tryMain sodiumInit cliConfig argv).Runs w tr outcome₁ w₁ ∧
      ((outcome₁ = .ok () ∧ outcome = .ok () ∧ w' = w₁) ∨
        (outcome₁ = .error .invalidAccess ∧ outcome = .error .invalidAccess ∧ w' = w₁) ∨
        ∃ e, e ≠ .invalidAccess ∧ outcome₁ = .error e ∧ outcome = .ok () ∧
          w' = w₁.printed (e.what ++ ascii "\n")) := by
  rw [main, Script.runs_handle_iff]
  constructor
  · rintro (⟨_, rfl, h⟩ | ⟨e, w₁, t₁, t₂, rfl, h, hhandler⟩)
    · exact ⟨.ok (), w', h, .inl ⟨rfl, rfl, rfl⟩⟩
    · by_cases he : e = .invalidAccess
      · subst he
        obtain ⟨rfl, rfl, rfl⟩ := Script.runs_lift_iff.mp hhandler
        rw [List.append_nil]
        exact ⟨_, w', h, .inr (.inl ⟨rfl, rfl, rfl⟩)⟩
      · have hprint : (World.print (e.what ++ ascii "\n")).Runs w₁ t₂ outcome w' := by
          cases e <;> first | exact hhandler | exact absurd rfl he
        obtain ⟨rfl, rfl, rfl⟩ := Script.runs_modify_iff.mp hprint
        rw [List.append_nil]
        exact ⟨_, w₁, h, .inr (.inr ⟨e, he, rfl, rfl, rfl⟩)⟩
  · rintro ⟨outcome₁, w₁, h, ⟨rfl, rfl, rfl⟩ | ⟨rfl, rfl, rfl⟩ | ⟨e, he, rfl, rfl, rfl⟩⟩
    · exact .inl ⟨(), rfl, h⟩
    · exact .inr ⟨_, w', tr, [], (List.append_nil tr).symm, h,
        Script.runs_lift_iff.mpr ⟨rfl, rfl, rfl⟩⟩
    · refine .inr ⟨e, w₁, tr, [], (List.append_nil tr).symm, h, ?_⟩
      have hprint : (World.print (e.what ++ ascii "\n")).Runs w₁ [] (.ok ())
          (w₁.printed (e.what ++ ascii "\n")) := Script.runs_modify_iff.mpr ⟨rfl, rfl, rfl⟩
      cases e <;> first | exact hprint | exact absurd rfl he

theorem tryMain_of_main (h : (main sodiumInit cliConfig argv).Runs w tr outcome w') :
    ∃ outcome₁ w₁, (tryMain sodiumInit cliConfig argv).Runs w tr outcome₁ w₁ ∧
      w'.files = w₁.files := by
  obtain ⟨outcome₁, w₁, htry, ⟨-, -, rfl⟩ | ⟨-, -, rfl⟩ | ⟨e, -, -, -, rfl⟩⟩ := runs_main_iff.mp h <;>
    exact ⟨outcome₁, _, htry, rfl⟩

theorem runs_tryMain (h : (tryMain sodiumInit cliConfig argv).Runs w tr outcome w') :
    (tr = [] ∧ w' = w ∧ ∃ e, outcome = .error e ∧
        (sodiumInit < 0 ∧ e = .runtimeError errorMsgSodiumInit ∨
          ArgHandler.parse argv = .error e)) ∨
      0 ≤ sodiumInit ∧ ∃ r, ArgHandler.parse argv = .ok r ∧
        (handleRequest cliConfig r).Runs w tr outcome w' := by
  rw [tryMain, Script.runs_lift_bind_iff, Script.runs_lift_bind_iff] at h
  rcases h with ⟨e, he, rfl, rfl, rfl⟩ | ⟨_, hinit, h⟩
  · split at he
    · rename_i hneg
      exact .inl ⟨rfl, rfl, e, rfl, .inl ⟨hneg, (Except.error.inj he).symm⟩⟩
    · cases he
  split at hinit
  · cases hinit
  rename_i hneg
  rcases h with ⟨e, he, rfl, rfl, rfl⟩ | ⟨r, hparse, h⟩
  · exact .inl ⟨rfl, rfl, e, rfl, .inr he⟩
  · exact .inr ⟨Int.not_lt.mp hneg, r, hparse, h⟩

end Cli

end MxSdk
