import MxSdk.Cli.Effects
import MxSdk.Cli.Overruns

/-! The runs that end in a crash. -/

namespace MxSdk
open Http

namespace CLIConfig
variable [TomlParser] {t : CLIConfig} {files : Files}

def NamesNoTable (t : CLIConfig) (files : Files) : Prop :=
  ∃ content root network, files t.tomlPath = some content ∧ TomlParser.parse content = .ok root ∧
    Toml.Table.getQualifiedAs root (ascii "Config.CLIConfig") = some network ∧ network ≠ [] ∧
    Toml.Table.getTable root network = none

theorem readConfig_crash_iff : t.readConfig files = .error .invalidAccess ↔
    t.NamesNoTable files := by
  constructor
  · intro h
    rcases bind_eq_error h with hparse | ⟨root, hroot, h⟩
    · rw [Toml.parseFile.eq_def] at hparse
      split at hparse
      · cases hparse
      · split at hparse <;> cases hparse
    obtain ⟨content, hcontent, hroot⟩ := Toml.parseFile_ok_iff.mp hroot
    simp only at h
    cases hnetwork : Toml.Table.getQualifiedAs root (ascii "Config.CLIConfig") with
    | none =>
      rw [hnetwork] at h
      cases h
    | some network =>
      rw [hnetwork, Option.getD_some] at h
      split at h
      · cases h
      rename_i hne
      cases htable : Toml.Table.getTable root network with
      | none => exact ⟨content, root, network, hcontent, hroot, hnetwork,
          fun hnil => hne (by rw [hnil]; rfl), htable⟩
      | some config =>
        rw [htable] at h
        simp only at h
        split at h <;> cases h
  · rintro ⟨content, root, network, hcontent, hroot, hnetwork, hne, htable⟩
    have hparse : Toml.parseFile t.tomlPath (files t.tomlPath) = .ok root :=
      Toml.parseFile_ok_iff.mpr ⟨content, hcontent, hroot⟩
    rw [readConfig, hparse]
    simp only [bind, Except.bind, hnetwork, Option.getD_some, List.isEmpty_eq_false_iff.mpr hne,
      Bool.false_eq_true, if_false, htable]
    rfl

theorem loadConfig_error_iff {e : Exception} : t.loadConfig files = .error e ↔
    e = .invalidAccess ∧ t.NamesNoTable files := by
  rw [← readConfig_crash_iff, loadConfig]
  split
  · rename_i config hconfig
    refine iff_of_false nofun fun h => ?_
    cases hconfig.symm.trans h.2
  · rename_i hcrash
    exact ⟨fun h => ⟨(Except.error.inj h).symm, hcrash⟩, fun h => by rw [h.1]; rfl⟩
  · rename_i e' hne he'
    exact iff_of_false nofun fun h => hne (Except.error.inj (he'.symm.trans h.2))

theorem not_namesNoTable {config : Cli.Config × Bytes} (h : t.loadConfig files = .ok config) :
    ¬ t.NamesNoTable files := by
  intro hnames
  cases h.symm.trans (loadConfig_error_iff.mpr ⟨rfl, hnames⟩)

end CLIConfig

namespace Cli
open ProxyProvider Cxxopts

section Runs
variable [Platform] [Sodium] [WalletCrypto] [Httplib] [TomlParser] {cliConfig : CLIConfig}
  {p : ArgvResult} {w w' : World} {tr : Conversation} {outcome : Except Exception Unit}

/-- A wallet or its secret key overruns in `transaction new`. -/
def CreatesBadly (cliConfig : CLIConfig) (files : Files) (p : ArgvResult) : Prop :=
  (∃ path, p.getAs (ascii "outfile") .string = .ok path) ∧
    (OpensBadly files p.toParseResult ∨ HasShortKey files p.toParseResult secretKeyLength ∧
      ∃ config text plain, cliConfig.loadConfig files = .ok (config, text) ∧
        createTransaction p.toParseResult config = .ok plain)

omit [Httplib] in
theorem createSigned_crash_iff_of_load {config : Config} {text : Bytes} {files : Files}
    (hload : cliConfig.loadConfig files = .ok (config, text)) :
    Crashes (createSigned p config files) ↔ CreatesBadly cliConfig files p := by
  rw [createSigned_crash_iff]
  refine and_congr_right fun _ => or_congr_right (and_congr_right fun _ => ?_)
  constructor
  · exact fun ⟨plain, hplain⟩ => ⟨config, text, plain, hload, hplain⟩
  · rintro ⟨config', text', plain, hload', hplain⟩
    rw [(Prod.mk.inj (Except.ok.inj (hload.symm.trans hload'))).1]
    exact ⟨plain, hplain⟩

omit [Httplib] in
theorem createRun_crash_iff (h : CreateRun cliConfig p w outcome w') :
    outcome = .error .invalidAccess ↔
      cliConfig.NamesNoTable w.files ∨ CreatesBadly cliConfig w.files p := by
  cases h with
  | noConfig he =>
    obtain ⟨rfl, hnames⟩ := CLIConfig.loadConfig_error_iff.mp he
    exact iff_of_true rfl (.inl hnames)
  | failed hload he =>
    rw [or_iff_right (CLIConfig.not_namesNoTable hload), ← createSigned_crash_iff_of_load hload,
      Crashes, he, Except.error.injEq, Except.error.injEq]
  | written hload hcreate _ =>
    rw [or_iff_right (CLIConfig.not_namesNoTable hload), ← createSigned_crash_iff_of_load hload,
      Crashes, hcreate]
    exact iff_of_false (by simp) (by simp)

def SwitchesToNoTable (cliConfig : CLIConfig) (files : Files) (p : ArgvResult) : Prop :=
  ∃ name network files', networkAsked p = .ok (name, network) ∧
    cliConfig.setNetwork network files = (.ok (), files') ∧ cliConfig.NamesNoTable files'

omit [Platform] [Sodium] [WalletCrypto] [Httplib] in
theorem setRun_crash_iff (h : SetRun cliConfig p w outcome w') :
    outcome = .error .invalidAccess ↔ SwitchesToNoTable cliConfig w.files p := by
  -- The options determine the network, and the files after the switch.
  have hfiles {name name' : Bytes} {network network' : Network} {set : Except Exception Unit}
      {files files' : Files} (hasked : networkAsked p = .ok (name, network))
      (hset : cliConfig.setNetwork network w.files = (set, files))
      (hasked' : networkAsked p = .ok (name', network'))
      (hset' : cliConfig.setNetwork network' w.files = (.ok (), files')) :
      set = .ok () ∧ files' = files := by
    obtain ⟨-, rfl⟩ := Prod.mk.inj (Except.ok.inj (hasked.symm.trans hasked'))
    obtain ⟨rfl, rfl⟩ := Prod.mk.inj (hset.symm.trans hset')
    exact ⟨rfl, rfl⟩
  cases h with
  | notNamed he =>
    refine iff_of_false (fun hcrash => ?_) ?_
    · exact catchable_networkAsked p _ he (Except.error.inj hcrash)
    · rintro ⟨name, network, files', hasked, -⟩
      cases he.symm.trans hasked
  | @notFound name network files e hasked he =>
    refine iff_of_false (fun hcrash => ?_) ?_
    · exact catchable_setNetwork cliConfig network w.files e (congrArg Prod.fst he)
        (Except.error.inj hcrash)
    · rintro ⟨name', network', files', hasked', hset', -⟩
      cases (hfiles hasked he hasked' hset').1
  | noConfig hasked hset he =>
    obtain ⟨rfl, hnames⟩ := CLIConfig.loadConfig_error_iff.mp he
    exact iff_of_true rfl ⟨_, _, _, hasked, hset, hnames⟩
  | done hasked hset hload =>
    refine iff_of_false nofun ?_
    rintro ⟨name', network', files', hasked', hset', hnames⟩
    rw [(hfiles hasked hset hasked' hset').2] at hnames
    exact CLIConfig.not_namesNoTable hload hnames

/-- The gateway named its network, and nobody was asked for more. -/
def Prepared (cliConfig : CLIConfig)
    (prepare : Config → Files → Except Exception (NetworkConfig → Except Exception Transaction))
    (files : Files) (tr : Conversation) : Prop :=
  ∃ config text make res cfg, cliConfig.loadConfig files = .ok (config, text) ∧
    prepare config files = .ok make ∧ tr = [(getConfig config, res)] ∧
    readNetworkConfig (wrappedResult res) = .ok cfg

omit [Sodium] [WalletCrypto] in
theorem sendRun_crash_iff (hlib : Httplib.Lawful)
    {prepare : Config → Files → Except Exception (NetworkConfig → Except Exception Transaction)}
    {opens makes : Prop} (hopens : ∀ config, Crashes (prepare config w.files) ↔ opens)
    (hmakes : ∀ config make cfg, prepare config w.files = .ok make →
      (Crashes (make cfg) ↔ makes))
    (h : SendRun cliConfig prepare w tr outcome w') : outcome = .error .invalidAccess ↔
      cliConfig.NamesNoTable w.files ∨ opens ∨
        Prepared cliConfig prepare w.files tr ∧ makes := by
  have hopened {config : Config} {make : NetworkConfig → Except Exception Transaction}
      (hprepare : prepare config w.files = .ok make) : ¬ opens := by
    rw [← hopens config, Crashes, hprepare]
    simp
  cases h with
  | noConfig he =>
    obtain ⟨rfl, hnames⟩ := CLIConfig.loadConfig_error_iff.mp he
    exact iff_of_true rfl (.inl hnames)
  | @notPrepared config text e hload he =>
    have hasked : ¬ Prepared cliConfig prepare w.files [] := by
      rintro ⟨_, _, _, _, _, -, -, htr, -⟩
      cases htr
    rw [or_iff_right (CLIConfig.not_namesNoTable hload), or_iff_left fun h => hasked h.1,
      ← hopens config, Crashes, he, Except.error.injEq, Except.error.injEq]
  | notConnected hload hprepare he =>
    refine iff_of_false (fun hcrash => hlib.newClient_error _ _ he (Except.error.inj hcrash)) ?_
    rintro (hnames | hbad | ⟨⟨_, _, _, _, _, -, -, htr, -⟩, -⟩)
    · exact CLIConfig.not_namesNoTable hload hnames
    · exact hopened hprepare hbad
    · cases htr
  | @notMade config text make e hload hmake res he =>
    rw [or_iff_right (CLIConfig.not_namesNoTable hload), or_iff_right (hopened hmake)]
    constructor
    · intro hcrash
      rw [Except.error.inj hcrash] at he
      rcases bind_eq_error he with he | ⟨cfg, hcfg, he⟩
      · exact absurd rfl (catchable_readNetworkConfig _ _ he)
      rcases bind_eq_error he with he | ⟨tx, -, he⟩
      · exact ⟨⟨config, text, make, res, cfg, hload, hmake, rfl, hcfg⟩,
          (hmakes config make cfg hmake).mp he⟩
      · exact absurd rfl (Transaction.catchable_serialize _ _ he)
    · rintro ⟨⟨_, _, _, _, cfg, -, -, htr, hcfg⟩, hbad⟩
      obtain rfl := (Prod.mk.inj (List.cons.inj htr).1).2
      have hcrash : make cfg = .error .invalidAccess := (hmakes config make cfg hmake).mpr hbad
      simp only [hcfg, hcrash, bind, Except.bind] at he
      rw [Except.error.inj he]
  | posted hload hprepare _ _ _ _ he =>
    refine iff_of_false (fun hcrash => ?_) ?_
    · exact catchable_readTxHash _ _ he (Except.error.inj hcrash)
    · rintro (hnames | hbad | ⟨⟨_, _, _, _, _, -, -, htr, -⟩, -⟩)
      · exact CLIConfig.not_namesNoTable hload hnames
      · exact hopened hprepare hbad
      · exact absurd (List.cons.inj htr).2 (List.cons_ne_nil _ _)
  | done hload hprepare _ _ _ _ =>
    refine iff_of_false (by simp) ?_
    rintro (hnames | hbad | ⟨⟨_, _, _, _, _, -, -, htr, -⟩, -⟩)
    · exact CLIConfig.not_namesNoTable hload hnames
    · exact hopened hprepare hbad
    · exact absurd (List.cons.inj htr).2 (List.cons_ne_nil _ _)

def LacksReceiver (files : Files) (input : ParseResult) : Prop :=
  input.count (ascii "receiver") = 0 ∧ ∃ key sender,
    SecretKeyProvider.new files input = .ok key ∧ key.getAddress = .ok sender

def CrashesOn (cliConfig : CLIConfig) (files : Files) (p : ArgvResult) (tr : Conversation) :
    Command → Prop
  | .createSignedTransaction =>
    cliConfig.NamesNoTable files ∨ CreatesBadly cliConfig files p
  | .issueESDT =>
    cliConfig.NamesNoTable files ∨ ReadsIssue p ∧ OpensBadly files p.toParseResult ∨
      Prepared cliConfig (prepareIssue p) files tr ∧ IssuesBadly files p
  | .transferESDT =>
    cliConfig.NamesNoTable files ∨ ReadsTransfer p.toParseResult ∧ OpensBadly files p.toParseResult ∨
      Prepared cliConfig (prepareTransfer p.toParseResult) files tr ∧
        (HasShortKey files p.toParseResult secretKeyLength ∨ LacksReceiver files p.toParseResult)
  | .setNetworkConfig => SwitchesToNoTable cliConfig files p

variable [HelpTexts]

omit [HelpTexts] in
theorem handleRequest_crash_iff (hlib : Httplib.Lawful) {c : Command}
    (h : (handleRequest cliConfig ⟨c.requestType, [], p⟩).Runs w tr outcome w') :
    outcome = .error .invalidAccess ↔ CrashesOn cliConfig w.files p tr c := by
  cases c with
  | createSignedTransaction => exact createRun_crash_iff (createRun_of_runs h).2
  | setNetworkConfig => exact setRun_crash_iff (setRun_of_runs h).2
  | issueESDT =>
    exact sendRun_crash_iff hlib (fun _ => prepareIssue_crash_iff)
      (fun _ _ cfg hmake => makeIssue_crash_iff hmake cfg) (sendRun_of_runs h)
  | transferESDT =>
    exact sendRun_crash_iff hlib (fun _ => prepareTransfer_crash_iff)
      (fun _ _ cfg hmake => makeTransfer_crash_iff hmake cfg) (sendRun_of_runs h)

theorem parsed_crash_iff (hlib : Httplib.Lawful) {argv : List Bytes} {r : ArgParsedResult}
    (hparse : ArgHandler.parse argv = .ok r)
    (h : (handleRequest cliConfig r).Runs w tr outcome w') :
    outcome = .error .invalidAccess ↔ ∃ c p,
      ArgHandler.parse argv = .ok ⟨c.requestType, [], p⟩ ∧
      CrashesOn cliConfig w.files p tr c := by
  have hother (hne : ∀ c : Command, r.requestType ≠ c.requestType) : ¬ ∃ c p,
      ArgHandler.parse argv = .ok ⟨c.requestType, [], p⟩ ∧ CrashesOn cliConfig w.files p tr c := by
    rintro ⟨c, p, hc, -⟩
    exact hne c (congrArg ArgParsedResult.requestType (Except.ok.inj (hparse.symm.trans hc)))
  have hcommand (c : Command) (hr : r.requestType = c.requestType) :
      outcome = .error .invalidAccess ↔ ∃ c p,
        ArgHandler.parse argv = .ok ⟨c.requestType, [], p⟩ ∧
        CrashesOn cliConfig w.files p tr c := by
    have hr := ArgHandler.eq_of_parse hparse hr
    rw [hr] at hparse h
    refine (handleRequest_crash_iff hlib h).trans ⟨fun hcrash => ⟨c, _, hparse, hcrash⟩, ?_⟩
    rintro ⟨c', p, hc', hcrash⟩
    obtain ⟨hsame, -, rfl⟩ := ArgParsedResult.mk.inj (Except.ok.inj (hparse.symm.trans hc'))
    rwa [← Command.requestType_injective hsame] at hcrash
  cases hr : r.requestType with
  | createSignedTransaction => exact hcommand .createSignedTransaction hr
  | setNetworkConfig => exact hcommand .setNetworkConfig hr
  | issueESDT => exact hcommand .issueESDT hr
  | transferESDT => exact hcommand .transferESDT hr
  | help =>
    rw [handleRequest, hr] at h
    obtain ⟨-, rfl, -⟩ := Script.runs_modify_iff.mp h
    refine iff_of_false (by simp) (hother fun c => ?_)
    rw [hr]
    cases c <;> intro h <;> cases h
  | invalid =>
    rw [handleRequest, hr] at h
    obtain ⟨-, rfl, -⟩ := Script.runs_pure_iff.mp h
    refine iff_of_false (by simp) (hother fun c => ?_)
    rw [hr]
    cases c <;> intro h <;> cases h

/-- Every run ends well, or crashes: on a configuration that names a network it has no table
for, on a key file with buffers that are too short or a key that is too long, or on a transfer
that has no receiver. -/
theorem main_crash_iff (sodiumInit : Int) (cliConfig : CLIConfig) (argv : List Bytes)
    (w w' : World) (tr : Conversation) (outcome : Except Exception Unit) :
    Httplib.Lawful → (main sodiumInit cliConfig argv).Runs w tr outcome w' →
      (outcome = .ok () ∨ outcome = .error .invalidAccess) ∧
      (outcome = .error .invalidAccess ↔ 0 ≤ sodiumInit ∧ ∃ c p,
        ArgHandler.parse argv = .ok ⟨c.requestType, [], p⟩ ∧
        CrashesOn cliConfig w.files p tr c) := by
  intro hlib h
  obtain ⟨outcome₁, w₁, htry, hend⟩ := runs_main_iff.mp h
  have hsame : (outcome = .ok () ∨ outcome = .error .invalidAccess) ∧
      (outcome = .error .invalidAccess ↔ outcome₁ = .error .invalidAccess) := by
    rcases hend with ⟨rfl, rfl, -⟩ | ⟨rfl, rfl, -⟩ | ⟨e, he, rfl, rfl, -⟩
    · exact ⟨.inl rfl, Iff.rfl⟩
    · exact ⟨.inr rfl, Iff.rfl⟩
    · exact ⟨.inl rfl, iff_of_false (by simp) fun hcrash => he (Except.error.inj hcrash)⟩
  refine ⟨hsame.1, hsame.2.trans ?_⟩
  rcases runs_tryMain htry with ⟨-, -, e, rfl, he⟩ | ⟨hinit, r, hparse, hrun⟩
  · refine iff_of_false (fun hcrash => ?_) ?_
    · rw [Except.error.inj hcrash] at he
      rcases he with ⟨-, he⟩ | he
      · cases he
      · exact catchable_parse argv _ he rfl
    · rintro ⟨hinit, c, p, hparse, -⟩
      rcases he with ⟨hneg, -⟩ | he
      · exact absurd hinit (Int.not_le.mpr hneg)
      · cases he.symm.trans hparse
  rw [parsed_crash_iff hlib hparse hrun]
  exact (and_iff_right hinit).symm

end Runs

def lostArgv : List Bytes :=
  [ascii "esdt", ascii "transfer", ascii "--key=alice.pem", ascii "--token=TKN-1", ascii "--value",
    ascii "5"]

theorem openHttplib_lawful : @Httplib.Lawful openHttplib := @Httplib.Lawful.mk openHttplib nofun

set_option maxRecDepth 100000 in
theorem lost_crashes :
    (Dialogue.play gateway [] (mainOf lostArgv aliceWorld)).2.1.isOk = false := by decide +kernel

theorem main_crash_iff_lost : ∃ tr outcome w', (mainOf lostArgv).Runs aliceWorld tr outcome w' ∧
    outcome = .error .invalidAccess ∧ ∃ c p,
      @ArgHandler.parse noTexts lostArgv = .ok ⟨c.requestType, [], p⟩ ∧
      @CrashesOn .arbitrary walletSodium aliceCrypto openHttplib testnetToml tomlConfig
        aliceWorld.files p tr c := by
  obtain ⟨tr, outcome, w', hruns, hbad⟩ := Script.exists_runs gateway (mainOf lostArgv) aliceWorld
    (P := fun r => r.2.1.isOk = false) lost_crashes
  obtain ⟨hend, hcrash⟩ := @main_crash_iff .arbitrary walletSodium aliceCrypto openHttplib
    testnetToml noTexts 0 tomlConfig lostArgv aliceWorld w' tr outcome openHttplib_lawful hruns
  rcases hend with rfl | rfl
  · cases hbad
  · exact ⟨tr, _, w', hruns, rfl, (hcrash.mp rfl).2⟩

end Cli

end MxSdk
