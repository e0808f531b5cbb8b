import MxSdk.Cli.SealedKey

/-! The parts of the commands that can access memory that is not there: wallets that are opened,
secret keys that are read, and the receiver of a transfer. -/

namespace MxSdk.Cli
open Cxxopts

section Wallets
variable [Platform] [Sodium] [WalletCrypto]

structure GivesKeyFile (input : ParseResult) (keyPath password : Bytes) : Prop where
  givesPath : input.getAs (ascii "key") .string = .ok keyPath
  extension : IFile.getFileExtension keyPath = ascii "json"
  givesPassword : input.getAs (ascii "password") .string = .ok password
  nonempty : password ≠ []

def OpensBadly (files : Files) (input : ParseResult) : Prop :=
  ∃ keyPath password data, GivesKeyFile input keyPath password ∧
    KeyFileReader.Holds files keyPath data ∧ Overruns data password

def HasShortKey (files : Files) (input : ParseResult) (length : Nat) : Prop :=
  ∃ keyPath password reader, GivesKeyFile input keyPath password ∧
    KeyFileReader.new files keyPath password = .ok reader ∧ reader.secretKey.length < length

variable {files : Files} {input : ParseResult} {key : ISecretKey}

omit [Sodium] in
theorem HasShortKey.mono {n m : Nat} (h : HasShortKey files input n) (hle : n ≤ m) :
    HasShortKey files input m := by
  obtain ⟨keyPath, password, reader, hgives, hreader, hlength⟩ := h
  exact ⟨keyPath, password, reader, hgives, hreader, hlength.trans_le hle⟩

omit [Sodium] in
theorem hasShortKey_iff {keyPath password : Bytes} {reader : KeyFileReader}
    (hgives : GivesKeyFile input keyPath password)
    (hreader : KeyFileReader.new files keyPath password = .ok reader) {n : Nat} :
    HasShortKey files input n ↔ reader.secretKey.length < n := by
  constructor
  · rintro ⟨keyPath', password', reader', hgives', hreader', hlength⟩
    obtain rfl := Except.ok.inj (hgives.givesPath.symm.trans hgives'.givesPath)
    obtain rfl := Except.ok.inj (hgives.givesPassword.symm.trans hgives'.givesPassword)
    rwa [Except.ok.inj (hreader.symm.trans hreader')]
  · exact fun hlength => ⟨keyPath, password, reader, hgives, hreader, hlength⟩

omit [Sodium] in
theorem not_hasShortKey_pem {keyPath : Bytes} (hpath : input.getAs (ascii "key") .string = .ok keyPath)
    (hpem : IFile.getFileExtension keyPath = ascii "pem") (n : Nat) :
    ¬ HasShortKey files input n := by
  rintro ⟨keyPath', _, _, hgives, -⟩
  have hsame := hgives.extension
  rw [← Except.ok.inj (hpath.symm.trans hgives.givesPath), hpem] at hsame
  exact absurd hsame (by decide +kernel)

theorem provider_crash_iff :
    Crashes (SecretKeyProvider.new files input) ↔ OpensBadly files input := by
  have hne : ascii "json" ≠ ascii "pem" := by decide +kernel
  constructor
  · intro h
    obtain ⟨keyPath, hpath, h⟩ := (catchable_getAs _ _ _).crashes_bind_iff.mp h
    simp only at h
    split at h
    · obtain ⟨reader, -, h⟩ := (PemFileReader.catchable_new _ _).crashes_bind_iff.mp h
      cases h
    split at h
    · rename_i hjson
      obtain ⟨password, hpassword, h⟩ := (catchable_getAs _ _ _).crashes_bind_iff.mp h
      split at h
      · cases h
      · rename_i hempty
        rcases bind_eq_error h with hcrash | ⟨reader, -, h⟩
        · obtain ⟨data, hholds, hoverruns⟩ :=
            (KeyFileReader.new_crash_iff files keyPath password).mp hcrash
          exact ⟨keyPath, password, data, ⟨hpath, hjson, hpassword,
            fun hnil => hempty (by rw [hnil]; rfl)⟩, hholds, hoverruns⟩
        · cases h
    · cases h
  · rintro ⟨keyPath, password, data, ⟨hpath, hjson, hpassword, hnil⟩, hholds, hoverruns⟩
    have hcrash := (KeyFileReader.new_crash_iff files keyPath password).mpr
      ⟨data, hholds, hoverruns⟩
    simp only [Crashes, SecretKeyProvider.new, hpath, bind, Except.bind, hjson, if_neg hne, if_true,
      hpassword, List.isEmpty_eq_false_iff.mpr hnil, Bool.false_eq_true, if_false, hcrash]

theorem reader_of_provider (h : SecretKeyProvider.new files input = .ok key) :
    (∃ reader : PemFileReader, key = reader.toSecretKey ∧ ∀ n, ¬ HasShortKey files input n) ∨
      ∃ reader : KeyFileReader, key = reader.toSecretKey ∧
        ∀ n, HasShortKey files input n ↔ reader.secretKey.length < n := by
  obtain ⟨keyPath, hpath, ⟨hpem, reader, -, rfl⟩ |
    ⟨hjson, password, reader, hpassword, hnil, hreader, rfl⟩⟩ := SecretKeyProvider.new_ok_iff.mp h
  · exact .inl ⟨reader, rfl, not_hasShortKey_pem hpath hpem⟩
  · exact .inr ⟨reader, rfl, fun n => hasShortKey_iff ⟨hpath, hjson, hpassword, hnil⟩ hreader⟩

theorem provider_of_hasShortKey {n : Nat} (h : HasShortKey files input n) :
    ∃ key, SecretKeyProvider.new files input = .ok key := by
  obtain ⟨keyPath, password, reader, ⟨hpath, hjson, hpassword, hnil⟩, hreader, -⟩ := h
  exact ⟨reader.toSecretKey, SecretKeyProvider.new_ok_iff.mpr ⟨keyPath, hpath,
    .inr ⟨hjson, password, reader, hpassword, hnil, hreader, rfl⟩⟩⟩

theorem getSeed_ok_iff (h : SecretKeyProvider.new files input = .ok key) :
    (∃ seed, key.getSeed = .ok seed) ↔ ¬ HasShortKey files input seedLength := by
  obtain ⟨reader, rfl, hshort⟩ | ⟨reader, rfl, hshort⟩ := reader_of_provider h
  · exact iff_of_true ⟨_, rfl⟩ (hshort _)
  · rw [hshort, Nat.not_lt, ← Crypto.read_ok_iff]
    constructor
    · rintro ⟨seed, hseed⟩
      obtain ⟨_, hread, -⟩ := bind_eq_ok hseed
      exact hread
    · intro hread
      refine ⟨WalletCrypto.skToSeed reader.secretKey, ?_⟩
      change reader.getSeed = _
      rw [KeyFileReader.getSeed, Crypto.getSeed, hread]
      rfl

theorem getSeed_crash_iff (h : SecretKeyProvider.new files input = .ok key) :
    Crashes key.getSeed ↔ HasShortKey files input seedLength := by
  obtain ⟨reader, rfl, hshort⟩ | ⟨reader, rfl, hshort⟩ := reader_of_provider h
  · exact iff_of_false nofun (hshort _)
  · rw [hshort]
    exact read_bind_crash_iff.trans (or_iff_left (by simp))

theorem getAddress_crash_iff (h : SecretKeyProvider.new files input = .ok key) :
    Crashes key.getAddress ↔ HasShortKey files input secretKeyLength := by
  obtain ⟨reader, rfl, hshort⟩ | ⟨reader, rfl, hshort⟩ := reader_of_provider h
  · exact iff_of_false (Address.catchable_ofPublicKey _).not_crashes (hshort _)
  · rw [hshort]
    exact read_bind_crash_iff.trans (or_iff_left (Address.catchable_ofPublicKey _).not_crashes)

omit [Sodium] in
theorem hasShortKey_whole (h : HasShortKey files input seedLength) :
    HasShortKey files input secretKeyLength := h.mono (by decide)

theorem signTransaction_crash_iff (h : SecretKeyProvider.new files input = .ok key)
    (tx : Transaction) :
    Crashes (signTransaction tx key) ↔ HasShortKey files input secretKeyLength := by
  constructor
  · intro hcrash
    rcases bind_eq_error hcrash with hseed | ⟨seed, -, hcrash⟩
    · exact hasShortKey_whole ((getSeed_crash_iff h).mp hseed)
    rcases bind_eq_error hcrash with haddress | ⟨address, -, hcrash⟩
    · exact (getAddress_crash_iff h).mp haddress
    have hsign := (Signer.catchable_new seed).bind fun signer _ =>
      Transaction.catchable_sign { tx with sender := some address } signer
    exact absurd hcrash (Catchable.not_crashes hsign)
  · intro hshort
    by_cases hseed : HasShortKey files input seedLength
    · exact bind_eq_error_iff.mpr (.inl ((getSeed_crash_iff h).mpr hseed))
    · obtain ⟨seed, hseed⟩ := (getSeed_ok_iff h).mpr hseed
      have haddress := (getAddress_crash_iff h).mpr hshort
      exact bind_eq_error_iff.mpr (.inr ⟨seed, hseed, bind_eq_error_iff.mpr (.inl haddress)⟩)

end Wallets

section Preparations
variable [Platform] [Sodium] [WalletCrypto] {result : ArgvResult} {config : Config} {files : Files}
  {make : NetworkConfig → Except Exception Transaction}

theorem createSigned_crash_iff : Crashes (createSigned result config files) ↔
    (∃ path, result.getAs (ascii "outfile") .string = .ok path) ∧
      (OpensBadly files result.toParseResult ∨
        HasShortKey files result.toParseResult secretKeyLength ∧
          ∃ plain, createTransaction result.toParseResult config = .ok plain) := by
  constructor
  · intro h
    obtain ⟨path, hpath, h⟩ := (catchable_getAs _ _ _).crashes_bind_iff.mp h
    refine ⟨⟨path, hpath⟩, ?_⟩
    rcases bind_eq_error h with hcrash | ⟨key, hkey, h⟩
    · exact .inl (provider_crash_iff.mp hcrash)
    obtain ⟨plain, hplain, h⟩ := (catchable_createTransaction _ _).crashes_bind_iff.mp h
    rcases bind_eq_error h with hcrash | ⟨tx, -, h⟩
    · exact .inr ⟨(signTransaction_crash_iff hkey plain).mp hcrash, plain, hplain⟩
    · obtain ⟨_, -, h⟩ := (IFile.catchable_checkFile _ _ _).crashes_bind_iff.mp h
      cases h
  · rintro ⟨⟨path, hpath⟩, hbad | ⟨hshort, plain, hplain⟩⟩
    · have hcrash := provider_crash_iff.mpr hbad
      simp only [Crashes, createSigned, hpath, hcrash, bind, Except.bind]
    · obtain ⟨key, hkey⟩ := provider_of_hasShortKey hshort
      have hcrash := (signTransaction_crash_iff hkey plain).mpr hshort
      simp only [Crashes, createSigned, hpath, hkey, hplain, hcrash, bind, Except.bind]

/-- The options of `esdt issue` that are read before the wallet is opened. -/
def ReadsIssue (result : ArgvResult) : Prop :=
  (∃ token, result.getAs (ascii "token") .string = .ok token) ∧
  (∃ ticker, result.getAs (ascii "ticker") .string = .ok ticker) ∧
  (∃ supply, result.getAs (ascii "supply") .string = .ok supply) ∧
  ∃ decimals, result.getAs (ascii "dec") .uint32 = .ok decimals

theorem prepareIssue_crash_iff : Crashes (prepareIssue result config files) ↔
    ReadsIssue result ∧ OpensBadly files result.toParseResult := by
  constructor
  · intro h
    obtain ⟨token, htoken, h⟩ := (catchable_getAs _ _ _).crashes_bind_iff.mp h
    obtain ⟨ticker, hticker, h⟩ := (catchable_getAs _ _ _).crashes_bind_iff.mp h
    obtain ⟨supply, hsupply, h⟩ := (catchable_getAs _ _ _).crashes_bind_iff.mp h
    obtain ⟨decimals, hdecimals, h⟩ := (catchable_getAs _ _ _).crashes_bind_iff.mp h
    refine ⟨⟨⟨token, htoken⟩, ⟨ticker, hticker⟩, ⟨supply, hsupply⟩, decimals, hdecimals⟩, ?_⟩
    rcases bind_eq_error h with hcrash | ⟨key, -, h⟩
    · exact provider_crash_iff.mp hcrash
    · obtain ⟨_, -, h⟩ := (catchable_createTransaction _ _).crashes_bind_iff.mp h
      cases h
  · rintro ⟨⟨⟨token, htoken⟩, ⟨ticker, hticker⟩, ⟨supply, hsupply⟩, decimals, hdecimals⟩, hbad⟩
    have hcrash := provider_crash_iff.mpr hbad
    simp only [Crashes, prepareIssue, htoken, hticker, hsupply, hdecimals, hcrash, bind, Except.bind]

/-- The options of `esdt transfer` that are read before the wallet is opened. -/
def ReadsTransfer (result : ParseResult) : Prop :=
  (∃ token, result.getAs (ascii "token") .string = .ok token) ∧
  (∃ function, result.getAs (ascii "function") .string = .ok function) ∧
  ∃ args, result.getAs (ascii "args") .strings = .ok args

theorem prepareTransfer_crash_iff {input : ParseResult} :
    Crashes (prepareTransfer input config files) ↔ ReadsTransfer input ∧ OpensBadly files input := by
  have hread : Crashes (prepareTransfer input config files) ↔
      Crashes (readTransfer input config (SecretKeyProvider.new files input)) :=
    bind_eq_error_iff.trans (or_iff_left fun ⟨_, _, h⟩ => nomatch h)
  rw [hread]
  constructor
  · intro h
    obtain ⟨token, htoken, h⟩ := (catchable_getAs _ _ _).crashes_bind_iff.mp h
    obtain ⟨function, hfunction, h⟩ := (catchable_getAs _ _ _).crashes_bind_iff.mp h
    obtain ⟨args, hargs, h⟩ := (catchable_getAs _ _ _).crashes_bind_iff.mp h
    refine ⟨⟨⟨token, htoken⟩, ⟨function, hfunction⟩, args, hargs⟩, ?_⟩
    rcases bind_eq_error h with hcrash | ⟨key, -, h⟩
    · exact provider_crash_iff.mp hcrash
    · obtain ⟨_, -, h⟩ := (catchable_createTransaction _ _).crashes_bind_iff.mp h
      cases h
  · rintro ⟨⟨⟨token, htoken⟩, ⟨function, hfunction⟩, args, hargs⟩, hbad⟩
    have hcrash := provider_crash_iff.mpr hbad
    simp only [Crashes, readTransfer, htoken, hfunction, hargs, hcrash, bind, Except.bind]

def ReadsSupply (result : ArgvResult) : Prop :=
  ∃ supply value, result.getAs (ascii "supply") .string = .ok supply ∧
    BigUInt.ofString supply = .ok value

/-- The secret key is read past its end while a token is issued. Where the supply is refused
too, or the seed is read before the address, it counts what is evaluated first. -/
def IssuesBadly (files : Files) (result : ArgvResult) : Prop :=
  (HasShortKey files result.toParseResult secretKeyLength ∧
    (ReadsSupply result ∨ Platform.secondFirst (ascii "createESDTIssue") = false)) ∨
  (HasShortKey files result.toParseResult seedLength ∧
    Platform.secondFirst (ascii "buildSigned") = true)

section Issue
variable {input : ParseResult} {key : ISecretKey} {supply : Bytes}
  {create : Address × BigUInt → Except Exception TransactionEGLDTransferBuilder}

theorem crashes_created_iff (hkey : SecretKeyProvider.new files input = .ok key)
    (hcreate : ∀ arguments, Catchable (create arguments)) :
    Crashes (Platform.both (ascii "createESDTIssue") key.getAddress (BigUInt.ofString supply) >>=
        create) ↔
      HasShortKey files input secretKeyLength ∧ ((∃ value, BigUInt.ofString supply = .ok value) ∨
        Platform.secondFirst (ascii "createESDTIssue") = false) := by
  rw [crashes_both_bind_iff hcreate, getAddress_crash_iff hkey]
  exact or_iff_left fun h => (BigUInt.catchable_ofString _).not_crashes h.1

theorem not_created (hkey : SecretKeyProvider.new files input = .ok key)
    (hshort : HasShortKey files input seedLength) :
    ¬ ∃ builder, Platform.both (ascii "createESDTIssue") key.getAddress (BigUInt.ofString supply) >>=
      create = .ok builder := by
  rintro ⟨builder, hbuilder⟩
  obtain ⟨⟨sender, value⟩, hboth, -⟩ := bind_eq_ok hbuilder
  have hsender := (Platform.both_ok_iff.mp hboth).1
  have hcrash := (getAddress_crash_iff hkey).mpr (hasShortKey_whole hshort)
  cases hcrash.symm.trans hsender

/-- The address and the supply are read for the builder, and the seed beside it. -/
theorem crashes_issue_iff (hkey : SecretKeyProvider.new files input = .ok key) (supply : Bytes)
    (hcreate : ∀ arguments, Catchable (create arguments)) :
    Crashes (Platform.both (ascii "buildSigned")
        (Platform.both (ascii "createESDTIssue") key.getAddress (BigUInt.ofString supply) >>= create)
        key.getSeed >>= fun operands => buildSigned (.ok operands.1.build) operands.2) ↔
      (HasShortKey files input secretKeyLength ∧ ((∃ value, BigUInt.ofString supply = .ok value) ∨
        Platform.secondFirst (ascii "createESDTIssue") = false)) ∨
      (HasShortKey files input seedLength ∧
        Platform.secondFirst (ascii "buildSigned") = true) := by
  rw [crashes_both_bind_iff fun _ => catchable_buildSigned (.ok _) _,
    crashes_created_iff hkey hcreate, getSeed_ok_iff hkey, getSeed_crash_iff hkey]
  constructor
  · rintro (⟨hcrash, -⟩ | ⟨hshort, hcreated | hfirst⟩)
    · exact .inl hcrash
    · exact absurd hcreated (not_created hkey hshort)
    · exact .inr ⟨hshort, hfirst⟩
  · rintro (hcrash | ⟨hshort, hfirst⟩)
    · by_cases hshort : HasShortKey files input seedLength
      · cases hfirst : Platform.secondFirst (ascii "buildSigned") with
        | false => exact .inl ⟨hcrash, .inr rfl⟩
        | true => exact .inr ⟨hshort, .inr rfl⟩
      · exact .inl ⟨hcrash, .inl hshort⟩
    · exact .inr ⟨hshort, .inr hfirst⟩

end Issue

theorem makeIssue_crash_iff (h : prepareIssue result config files = .ok make)
    (cfg : NetworkConfig) : Crashes (make cfg) ↔ IssuesBadly files result := by
  obtain ⟨token, -, h⟩ := bind_eq_ok h
  obtain ⟨ticker, -, h⟩ := bind_eq_ok h
  obtain ⟨supply, hsupply, h⟩ := bind_eq_ok h
  obtain ⟨decimals, -, h⟩ := bind_eq_ok h
  obtain ⟨key, hkey, h⟩ := bind_eq_ok h
  obtain ⟨tx, -, h⟩ := bind_eq_ok h
  obtain rfl := Except.ok.inj h
  have hreads : ReadsSupply result ↔ ∃ value, BigUInt.ofString supply = .ok value := by
    constructor
    · rintro ⟨supply', value, hsupply', hvalue⟩
      rw [Except.ok.inj (hsupply.symm.trans hsupply')]
      exact ⟨value, hvalue⟩
    · exact fun ⟨value, hvalue⟩ => ⟨supply, value, hsupply, hvalue⟩
  have hcrash := crashes_issue_iff hkey supply fun arguments : Address × BigUInt =>
    TransactionFactory.catchable_createESDTIssue (TransactionFactory.new cfg) tx.nonce arguments.1
      tx.gasPrice token ticker arguments.2 decimals (esdtProperties result)
  rw [← hreads] at hcrash
  exact hcrash

omit [Platform] [Sodium] [WalletCrypto] in
theorem receiver_eq_none_iff {p : ParseResult} {tx : Transaction}
    (h : createTransaction p config = .ok tx) :
    tx.receiver = none ↔ p.count (ascii "receiver") = 0 := by
  rw [createTransaction] at h
  obtain ⟨nonce, -, h⟩ := bind_eq_ok h
  obtain ⟨value, -, h⟩ := bind_eq_ok h
  obtain ⟨receiver, hreceiver, h⟩ := bind_eq_ok h
  obtain ⟨receiverUserName, -, h⟩ := bind_eq_ok h
  obtain ⟨senderUserName, -, h⟩ := bind_eq_ok h
  obtain ⟨gasPrice, -, h⟩ := bind_eq_ok h
  obtain ⟨gasLimit, -, h⟩ := bind_eq_ok h
  obtain ⟨data, -, h⟩ := bind_eq_ok h
  obtain ⟨version, -, h⟩ := bind_eq_ok h
  obtain ⟨options, -, h⟩ := bind_eq_ok h
  rw [← Except.ok.inj h]
  simp only [TransactionInputWrapper.getReceiver] at hreceiver
  split at hreceiver
  · rename_i hcount
    obtain ⟨text, -, hreceiver⟩ := bind_eq_ok hreceiver
    obtain ⟨address, -, hreceiver⟩ := bind_eq_ok hreceiver
    rw [← Except.ok.inj hreceiver]
    exact iff_of_false (by simp) hcount
  · rename_i hcount
    rw [← Except.ok.inj hreceiver]
    exact iff_of_true rfl (not_not.mp hcount)

omit [Platform] [Sodium] [WalletCrypto] in
theorem assembleTransfer_ok (token : Bytes) (args : List Bytes) {tx : Transaction}
    {key : ISecretKey} (cfg : NetworkConfig) {sender receiver : Address}
    (hsender : key.getAddress = .ok sender) (hreceiver : tx.receiver = some receiver) :
    ∃ assembled, assembleTransfer token args tx key cfg = .ok assembled := by
  obtain ⟨_, built, -, hbuild, hdata⟩ := esdt_data cfg tx.nonce sender receiver tx.gasPrice
    (.fungibleFromBigUInt token tx.value 0) []
  have hbuilt : ((TransactionFactory.new cfg).createESDTTransfer
      (.fungibleFromBigUInt token tx.value 0) tx.nonce sender receiver tx.gasPrice).build =
        .ok built := hbuild
  rw [assembleTransfer]
  simp only [hsender, hreceiver, hbuilt, hdata, bind, Except.bind]
  exact ⟨_, rfl⟩

/-- A transfer is assembled for the receiver, without asking whether there is one. -/
theorem makeTransfer_crash_iff {input : ParseResult}
    (h : prepareTransfer input config files = .ok make) (cfg : NetworkConfig) :
    Crashes (make cfg) ↔ HasShortKey files input secretKeyLength ∨
      input.count (ascii "receiver") = 0 ∧ ∃ key sender,
        SecretKeyProvider.new files input = .ok key ∧ key.getAddress = .ok sender := by
  obtain ⟨key, assemble, hread, rfl⟩ := prepareTransfer_ok h
  obtain ⟨token, args, tx, -, -, hkey, htx, rfl⟩ := readTransfer_ok hread
  rw [← getAddress_crash_iff hkey, ← receiver_eq_none_iff htx]
  have hreceiver : (∃ key sender, SecretKeyProvider.new files input = .ok key ∧
      key.getAddress = .ok sender) ↔ ∃ sender, key.getAddress = .ok sender := by
    constructor
    · rintro ⟨key', sender, hkey', hsender⟩
      rw [Except.ok.inj (hkey.symm.trans hkey')]
      exact ⟨sender, hsender⟩
    · exact fun ⟨sender, hsender⟩ => ⟨key, sender, hkey, hsender⟩
  rw [hreceiver]
  cases hsender : key.getAddress with
  | error e =>
    have hmake : (assembleTransfer token args tx key cfg >>= fun tx => signTransaction tx key) =
        .error e := by
      rw [assembleTransfer, hsender]
      rfl
    rw [Crashes, show (fun cfg => assembleTransfer token args tx key cfg >>= fun tx =>
      signTransaction tx key) cfg = .error e from hmake]
    simp
  | ok sender =>
    cases hnone : tx.receiver with
    | none =>
      refine iff_of_true ?_ (.inr ⟨rfl, sender, rfl⟩)
      simp only [Crashes, assembleTransfer, hsender, hnone, bind, Except.bind]
      rfl
    | some receiver =>
      obtain ⟨assembled, hassembled⟩ := assembleTransfer_ok token args cfg hsender hnone
      refine iff_of_false (fun hcrash => ?_) (by simp)
      simp only [Crashes, hassembled, bind, Except.bind] at hcrash
      have haddress := (getAddress_crash_iff hkey).mpr
        ((signTransaction_crash_iff hkey assembled).mp hcrash)
      cases haddress.symm.trans hsender

end Preparations

end MxSdk.Cli
