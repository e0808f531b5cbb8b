import MxSdk.Cli.Effects

/-! Runs of the tool one after the other, with any arguments and any answers. The wallets stay
what they were, and so does every line of the configuration but one. -/

namespace MxSdk.Cli
open Http ProxyProvider Transaction Cxxopts

section Wallets
variable [Platform]

theorem getFileContent_message {tx : Transaction} {message : Bytes}
    (h : tx.serialize = .ok message) (data : EncryptedData) :
    KeyFileReader.getFileContent message ≠ .ok data := by
  have hcrypto : Json.find (ascii "crypto") (.object (members tx)) = none := by
    cases hfind : Json.find (ascii "crypto") (.object (members tx)) with
    | none => rfl
    | some v =>
      obtain ⟨k, hk, -⟩ := mem_members (OrderedMap.mem_of_find hfind)
      have hne : ascii "crypto" ≠ k.text := by cases k <;> decide +kernel
      exact absurd hk hne
  have hnone : KeyFileReader.readFileContent message = none := by
    rw [KeyFileReader.readFileContent, parse_serialize h]
    simp only [bind, Option.bind, hcrypto]
  intro hdata
  rw [KeyFileReader.getFileContent, hnone] at hdata
  cases hdata

end Wallets

section Tool
variable [Platform] [Sodium] [WalletCrypto]

/-- A text that the tool wrote with one of these wallets. -/
def Written (files : Files) (content : Bytes) : Prop :=
  ∃ p key chainId tx, SecretKeyProvider.new files p = .ok key ∧ SignedBy key chainId tx content

/-- What runs of the tool keep of the files. -/
structure Kept (cliConfig : CLIConfig) (files files' : Files) : Prop where
  existing : ∀ path, (files' path).isSome = (files path).isSome
  others : ∀ path, path ≠ cliConfig.tomlPath → files' path = files path ∨
    IFile.getFileExtension path = ascii "json" ∧ ∃ content, files' path = some content ∧
      Written files content
  config : files' cliConfig.tomlPath = files cliConfig.tomlPath ∨
    ∃ content before line after network, files cliConfig.tomlPath = some content ∧
      CLIConfig.lines content = before ++ line :: after ∧
      (∀ l ∈ before, ¬ CLIConfig.key <:+: l) ∧ CLIConfig.key <:+: line ∧
      files' cliConfig.tomlPath =
        some (CLIConfig.unlines (before ++ CLIConfig.newLine network :: after))

theorem Kept.wallets {cliConfig : CLIConfig} {files files' : Files} (h : Kept cliConfig files files')
    (htoml : IFile.getFileExtension cliConfig.tomlPath = ascii "toml") {p : ParseResult}
    {key : ISecretKey} (hkey : SecretKeyProvider.new files' p = .ok key) :
    SecretKeyProvider.new files p = .ok key := by
  have hcheck {path extension content : Bytes} (hne : extension ≠ [])
      (hcontent : IFile.checkFile files' path extension = .ok content)
      (hother : extension ≠ ascii "toml") :
      IFile.checkFile files path extension = .ok content ∨
        extension = ascii "json" ∧ Written files content := by
    obtain ⟨hfile, hextension⟩ := IFile.checkFile_extension hcontent hne
    have hpath : path ≠ cliConfig.tomlPath := by
      rintro rfl
      exact hother (hextension.symm.trans htoml)
    rcases h.others path hpath with hsame | ⟨hjson, content', hcontent', hwritten⟩
    · exact .inl (IFile.checkFile_eq (hsame ▸ hfile) hextension)
    · rw [Option.some.inj (hcontent'.symm.trans hfile)] at hwritten
      exact .inr ⟨hextension.symm.trans hjson, hwritten⟩
  have hpem {path : Bytes} {reader : PemFileReader} (hreader : PemFileReader.new files' path =
      .ok reader) : PemFileReader.new files path = .ok reader := by
    obtain ⟨content, hcontent, hrest⟩ := bind_eq_ok hreader
    rcases hcheck (by decide) hcontent (by decide +kernel) with hsame | ⟨hjson, -⟩
    · rw [PemFileReader.new, hsame]
      exact hrest
    · exact absurd hjson (by decide +kernel)
  have hkeyFile {path password : Bytes} {reader : KeyFileReader}
      (hreader : KeyFileReader.new files' path password = .ok reader) :
      KeyFileReader.new files path password = .ok reader := by
    obtain ⟨content, hcontent, hrest⟩ := bind_eq_ok hreader
    rcases hcheck (by decide) hcontent (by decide +kernel) with hsame | ⟨-, hwritten⟩
    · rw [KeyFileReader.new, hsame]
      exact hrest
    · obtain ⟨data, hdata, -⟩ := bind_eq_ok hrest
      obtain ⟨_, _, _, _, -, hsigned⟩ := hwritten
      exact absurd hdata (getFileContent_message hsigned.text data)
  obtain ⟨keyPath, hkeyPath, ⟨hextension, reader, hreader, rfl⟩ |
    ⟨hextension, password, reader, hpassword, hne, hreader, rfl⟩⟩ :=
      SecretKeyProvider.new_ok_iff.mp hkey
  · exact SecretKeyProvider.new_ok_iff.mpr
      ⟨keyPath, hkeyPath, .inl ⟨hextension, reader, hpem hreader, rfl⟩⟩
  · exact SecretKeyProvider.new_ok_iff.mpr ⟨keyPath, hkeyPath,
      .inr ⟨hextension, password, reader, hpassword, hne, hkeyFile hreader, rfl⟩⟩

theorem Kept.refl (cliConfig : CLIConfig) (files : Files) : Kept cliConfig files files where
  existing _ := rfl
  others _ _ := .inl rfl
  config := .inl rfl

variable [Httplib] [TomlParser] [HelpTexts] {cliConfig : CLIConfig} {argv : List Bytes}
  {files files₁ files₂ : Files} {tr : Conversation}

theorem Kept.run (htoml : IFile.getFileExtension cliConfig.tomlPath = ascii "toml")
    (h : Kept cliConfig files files₁) (hrun : Effect cliConfig argv files₁ tr files₂) :
    Kept cliConfig files files₂ := by
  cases hrun with
  | nothing => exact h
  | asked _ _ => exact h
  | sent _ _ _ _ _ _ _ => exact h
  | @created p config text out old message key plain tx _ _ hkey _ _ hsigned hpath hold =>
    obtain ⟨hfile, hextension⟩ := IFile.checkFile_extension hold (by decide)
    have hout : cliConfig.tomlPath ≠ out := by
      rintro rfl
      exact absurd (htoml.symm.trans hextension) (by decide +kernel)
    refine ⟨fun path => ?_, fun path hpath => ?_, ?_⟩
    · by_cases hsame : path = out
      · rw [hsame, Function.update_self, ← h.existing, hfile]
        rfl
      · rw [Function.update_of_ne hsame, h.existing]
    · by_cases hsame : path = out
      · rw [hsame, Function.update_self]
        exact .inr ⟨hextension, message, rfl, _, key, _, tx, h.wallets htoml hkey, hsigned⟩
      · rw [Function.update_of_ne hsame]
        exact h.others path hpath
    · rw [Function.update_of_ne hout]
      exact h.config
  | @switched p name network _ _ _ hset =>
    obtain ⟨content, before, line, after, hcontent, hlines, hbefore, hline, rfl⟩ :=
      CLIConfig.setNetwork_ok hset
    refine ⟨fun path => ?_, fun path hpath => ?_, ?_⟩
    · by_cases hsame : path = cliConfig.tomlPath
      · rw [hsame, CLIConfig.written, Function.update_self, ← h.existing, hcontent]
        rfl
      · rw [CLIConfig.written, Function.update_of_ne hsame, h.existing]
    · rw [CLIConfig.written, Function.update_of_ne hpath]
      exact h.others path hpath
    · rw [CLIConfig.written, Function.update_self]
      refine .inr ?_
      rcases h.config with hsame | ⟨content', before', line', after', network', hcontent',
        hlines', hbefore', hline', hnew⟩
      · exact ⟨content, before, line, after, network, hsame ▸ hcontent, hlines, hbefore, hline, rfl⟩
      -- The line of the last switch is the first with the key.
      · rw [hcontent, Option.some.injEq] at hnew
        rw [hnew, CLIConfig.lines_unlines hlines'] at hlines
        obtain ⟨rfl, -, rfl⟩ := Lines.first_inj hlines hbefore' (CLIConfig.infix_newLine network')
          hbefore hline
        exact ⟨content', before', line', after', network, hcontent', hlines', hbefore', hline', rfl⟩

/-- Runs in a row, with all that was said in them. -/
inductive Session (cliConfig : CLIConfig) (files : Files) : Conversation → Files → Prop where
  | start : Session cliConfig files [] files
  | run {sodiumInit : Int} {argv : List Bytes} {w w' : World} {said tr : Conversation}
      {outcome : Except Exception Unit} (h : Session cliConfig files said w.files)
      (hrun : (main sodiumInit cliConfig argv).Runs w tr outcome w') :
      Session cliConfig files (said ++ tr) w'.files

/-- Behind `earlier`, the gateway names a network and gets a transaction of a wallet for it. -/
structure Announced (files : Files) (before : Conversation) (url path body : Bytes)
    (p : ParseResult) (key : ISecretKey) (cfg : NetworkConfig) (tx : Transaction) : Prop where
  asked : ∃ earlier answer, before = earlier ++ [(.get url (ascii "/network/config"), answer)] ∧
    readNetworkConfig (wrappedResult answer) = .ok cfg
  path_eq : path = ascii "/transaction/send"
  wallet : SecretKeyProvider.new files p = .ok key
  signed : SignedBy key cfg.chainId tx body

def AllAnnounced (files : Files) (said : Conversation) : Prop :=
  ∀ before url path body contentType res after,
    said = before ++ (.post url path body contentType, res) :: after →
    ∃ p key cfg tx, Announced files before url path body p key cfg tx

variable {url path body contentType : Bytes} {res : LibResult}

theorem Effect.announced (hrun : Effect cliConfig argv files tr files₁)
    {before after : Conversation}
    (htr : tr = before ++ (.post url path body contentType, res) :: after) :
    ∃ p key cfg tx, Announced files before url path body p key cfg tx := by
  have hget {config : Config} : getConfig config ≠ .post url path body contentType := by
    rw [getConfig]
    exact nofun
  cases hrun with
  | nothing => cases before <;> cases htr
  | created _ _ _ _ _ _ _ _ => cases before <;> cases htr
  | switched _ _ _ => cases before <;> cases htr
  | asked _ _ =>
    rcases List.singleton_eq_append_iff.mp htr with ⟨-, h⟩ | ⟨-, h⟩
    · exact absurd (Prod.mk.inj (List.cons.inj h).1).1.symm hget
    · cases h
  | @sent _ p config _ _ key cfg tx answer _ _ hkey hcfg _ hsigned _ =>
    rcases List.cons_eq_append_iff.mp htr with ⟨-, h⟩ | ⟨before', rfl, h⟩
    · exact absurd (Prod.mk.inj (List.cons.inj h).1).1.symm hget
    rcases List.singleton_eq_append_iff.mp h with ⟨rfl, h⟩ | ⟨-, h⟩
    · obtain ⟨hurl, hpath, hbody, -⟩ :=
        Http.Request.post.inj (Prod.mk.inj (List.cons.inj h).1).1.symm
      subst hurl hpath hbody
      exact ⟨p.toParseResult, key, cfg, tx, ⟨⟨[], answer, rfl, hcfg⟩, rfl, hkey, hsigned⟩⟩
    · cases h

theorem AllAnnounced.append {said : Conversation} (h : AllAnnounced files said)
    (hkept : Kept cliConfig files files₁)
    (htoml : IFile.getFileExtension cliConfig.tomlPath = ascii "toml")
    (hrun : Effect cliConfig argv files₁ tr files₂) : AllAnnounced files (said ++ tr) := by
  intro before url path body contentType res after heq
  -- The post was said before the run, or in it.
  have hsplit : (∃ rest, said = before ++ (.post url path body contentType, res) :: rest) ∨
      ∃ head, before = said ++ head ∧
        tr = head ++ (.post url path body contentType, res) :: after := by
    rcases List.append_eq_append_iff.mp heq with ⟨head, rfl, htr⟩ | ⟨rest, hsaid, hrest⟩
    · exact .inr ⟨head, rfl, htr⟩
    · cases rest with
      | nil => exact .inr ⟨[], by rw [hsaid, List.append_nil, List.append_nil], hrest.symm⟩
      | cons x rest =>
        obtain ⟨rfl, -⟩ := List.cons.inj hrest
        exact .inl ⟨rest, hsaid⟩
  rcases hsplit with ⟨rest, hsaid⟩ | ⟨head, rfl, htr⟩
  · exact h _ _ _ _ _ _ _ hsaid
  · obtain ⟨p, key, cfg, tx, ⟨earlier, answer, rfl, hcfg⟩, hpath, hkey, hsigned⟩ :=
      hrun.announced htr
    exact ⟨p, key, cfg, tx, ⟨⟨said ++ earlier, answer, (List.append_assoc _ _ _).symm, hcfg⟩, hpath,
      hkept.wallets htoml hkey, hsigned⟩⟩

/-- In any runs in a row, each file that is neither JSON nor the configuration stays as it
was, the configuration is edited in one line, and every post is announced. -/
theorem session_safe (cliConfig : CLIConfig) (files files' : Files) (said : Conversation) :
    IFile.getFileExtension cliConfig.tomlPath = ascii "toml" →
    Session cliConfig files said files' → Kept cliConfig files files' ∧ AllAnnounced files said := by
  intro htoml h
  induction h with
  | start =>
    refine ⟨.refl cliConfig files, fun before url path body contentType res after h => ?_⟩
    cases before <;> cases h
  | run _ hrun ih =>
    have heffect := main_effect hrun
    exact ⟨ih.1.run htoml heffect, ih.2.append ih.1 htoml heffect⟩

end Tool

theorem session_safe_transfer : ∃ said files',
    @Session .arbitrary walletSodium aliceCrypto openHttplib testnetToml noTexts tomlConfig
      aliceWorld.files said files' ∧ said.length = 2 ∧
    @Kept .arbitrary walletSodium aliceCrypto tomlConfig aliceWorld.files files' ∧
    @AllAnnounced .arbitrary walletSodium aliceCrypto openHttplib aliceWorld.files said := by
  obtain ⟨tr, outcome, w', asked, url, path, body, contentType, res, hruns, htr⟩ := exists_transfer
  have h := @Session.run .arbitrary walletSodium aliceCrypto openHttplib testnetToml noTexts
    tomlConfig aliceWorld.files 0 transferArgv aliceWorld w' [] tr outcome
    (@Session.start .arbitrary walletSodium aliceCrypto openHttplib testnetToml noTexts tomlConfig
      aliceWorld.files) hruns
  exact ⟨_, w'.files, h, by rw [htr]; rfl, @session_safe .arbitrary walletSodium aliceCrypto openHttplib
    testnetToml noTexts tomlConfig aliceWorld.files w'.files _ (by decide +kernel) h⟩

end MxSdk.Cli
