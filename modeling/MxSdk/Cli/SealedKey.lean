import MxSdk.Cli.Exceptions
import MxSdk.Vendor.AesModes

/-! Which key files open with a password, and for which ones memory is read that is not there. -/

namespace MxSdk

section Crypto

/-- The text of AES in counter mode. -/
def encrypted (key iv text : Bytes) : Bytes :=
  (Aes.ctrXcryptBuffer (Aes.initCtxIv (Crypto.block key) (Crypto.block iv)) text).2

theorem encrypted_take {key : Bytes} {n : Nat} (h : Aes.keyLen ≤ n) (iv text : Bytes) :
    encrypted (key.take n) iv text = encrypted key iv text := by
  have hblock : Crypto.block (key.take n) = Crypto.block key := by
    refine Vector.ext fun i hi => ?_
    have hlt : i < n := hi.trans_le h
    simp only [Crypto.block, Vector.getElem_ofFn, List.getD_eq_getElem?_getD,
      List.getElem?_take_of_lt hlt]
  rw [encrypted, hblock, encrypted]

theorem eq_encrypted_iff {key iv cipherText text : Bytes} :
    encrypted key iv cipherText = text ↔ cipherText = encrypted key iv text := by
  constructor
  · rintro rfl
    exact (Aes.ctrXcryptBuffer_ctrXcryptBuffer _ _).symm
  · rintro rfl
    exact Aes.ctrXcryptBuffer_ctrXcryptBuffer _ _

theorem aes128ctrDecrypt_ok_iff {key iv cipherText text : Bytes} :
    Crypto.aes128ctrDecrypt key cipherText iv = .ok text ↔
      Aes.keyLen ≤ key.length ∧ Aes.blockLen ≤ iv.length + 1 ∧
        cipherText = encrypted key iv text := by
  have hzero : (iv ++ [0]).length = iv.length + 1 := List.length_append
  rw [← eq_encrypted_iff, ← hzero, ← Crypto.read_ok_iff, ← Crypto.read_ok_iff]
  constructor
  · intro h
    obtain ⟨_, hkey, h⟩ := bind_eq_ok h
    obtain ⟨_, hiv, h⟩ := bind_eq_ok h
    exact ⟨hkey, hiv, Except.ok.inj h⟩
  · rintro ⟨hkey, hiv, h⟩
    rw [Crypto.aes128ctrDecrypt, hkey, hiv]
    exact congrArg Except.ok h

theorem read_bind_crash_iff {α : Type} {length : Nat} {buffer : Bytes}
    {f : Unit → Except Exception α} :
    Crashes (Crypto.read length buffer >>= f) ↔ buffer.length < length ∨ Crashes (f ()) := by
  rw [Crashes, bind_eq_error_iff, Crypto.read_error_iff]
  constructor
  · rintro (⟨-, hshort⟩ | ⟨_, -, hcrash⟩)
    · exact .inl hshort
    · exact .inr hcrash
  · intro h
    by_cases hshort : buffer.length < length
    · exact .inl ⟨rfl, hshort⟩
    · exact .inr ⟨(), Crypto.read_ok_iff.mpr (Nat.not_lt.mp hshort), h.resolve_left hshort⟩

theorem aes128ctrDecrypt_crash_iff {key iv cipherText : Bytes} :
    Crashes (Crypto.aes128ctrDecrypt key cipherText iv) ↔
      key.length < Aes.keyLen ∨ iv.length + 1 < Aes.blockLen := by
  have hzero : (iv ++ [0]).length = iv.length + 1 := List.length_append
  rw [← hzero, Crypto.aes128ctrDecrypt, read_bind_crash_iff, read_bind_crash_iff]
  exact or_congr_right (or_iff_left (by simp))

variable [WalletCrypto]

theorem length_scrypt {password derivedKey : Bytes} {kdfParams : KdfParams}
    (h : Crypto.scrypt password kdfParams = .ok derivedKey) :
    derivedKey.length = kdfParams.dklen.toNat := by
  rw [Crypto.scrypt] at h
  split at h
  · cases h
  · cases hkey : WalletCrypto.scryptsalsa208sha256 password kdfParams.salt kdfParams.n kdfParams.r
      kdfParams.p kdfParams.dklen with
    | none =>
      rw [hkey] at h
      cases h
    | some key =>
      rw [hkey] at h
      rw [← Except.ok.inj h]
      exact key.2

theorem scrypt_crash_iff {password : Bytes} {kdfParams : KdfParams} :
    Crashes (Crypto.scrypt password kdfParams) ↔
      WalletCrypto.stackHolds kdfParams.dklen = false := by
  rw [Crashes, Crypto.scrypt]
  cases hstack : WalletCrypto.stackHolds kdfParams.dklen with
  | false => exact iff_of_true rfl rfl
  | true =>
    refine iff_of_false (fun h => ?_) (by decide)
    cases hkey : WalletCrypto.scryptsalsa208sha256 password kdfParams.salt kdfParams.n kdfParams.r
      kdfParams.p kdfParams.dklen with
    | none =>
      rw [hkey] at h
      cases h
    | some key =>
      rw [hkey] at h
      cases h

/-- The second half of the derived key makes the code of the text. -/
def Authentic (data : EncryptedData) (derivedKey : Bytes) : Prop :=
  data.mac = Crypto.hmacsha256 (derivedKey.drop (derivedKey.length / 2)) data.cipherText

/-- Half of the derived key is no key of AES, or the vector is no block of it. -/
def TooShort (data : EncryptedData) : Prop :=
  data.kdfParams.dklen.toNat < 2 * Aes.keyLen ∨ data.iv.length + 1 < Aes.blockLen

section Derived
variable {data : EncryptedData} {password derivedKey secretKey : Bytes}

theorem deriveSecretKey_authentic
    (h : Crypto.scrypt password data.kdfParams = .ok derivedKey) (hmac : Authentic data derivedKey) :
    deriveSecretKey data password = Crypto.aes128ctrDecrypt
      (derivedKey.take (derivedKey.length / 2)) data.cipherText data.iv := by
  rw [deriveSecretKey, h]
  exact if_neg (not_not.mpr hmac.symm)

theorem deriveSecretKey_mismatch
    (h : Crypto.scrypt password data.kdfParams = .ok derivedKey)
    (hmac : ¬ Authentic data derivedKey) :
    deriveSecretKey data password = .error (.runtimeError errorMsgMac) := by
  rw [deriveSecretKey, h]
  exact if_pos fun heq => hmac heq.symm

theorem deriveSecretKey_ok_iff : deriveSecretKey data password = .ok secretKey ↔
    ¬ TooShort data ∧ ∃ derivedKey, Crypto.scrypt password data.kdfParams = .ok derivedKey ∧
      Authentic data derivedKey ∧ data.cipherText = encrypted derivedKey data.iv secretKey := by
  have hopen {derivedKey : Bytes} (h : Crypto.scrypt password data.kdfParams = .ok derivedKey) :
      Crypto.aes128ctrDecrypt (derivedKey.take (derivedKey.length / 2)) data.cipherText data.iv =
          .ok secretKey ↔
        ¬ TooShort data ∧ data.cipherText = encrypted derivedKey data.iv secretKey := by
    have hlength := length_scrypt h
    rw [aes128ctrDecrypt_ok_iff, List.length_take, TooShort, ← hlength]
    constructor
    · rintro ⟨hkey, hiv, htext⟩
      rw [encrypted_take (by omega)] at htext
      exact ⟨by omega, htext⟩
    · rintro ⟨hlong, htext⟩
      rw [encrypted_take (by omega)]
      exact ⟨by omega, by omega, htext⟩
  constructor
  · intro h
    obtain ⟨derivedKey, hderived, -⟩ := bind_eq_ok h
    by_cases hmac : Authentic data derivedKey
    · rw [deriveSecretKey_authentic hderived hmac, hopen hderived] at h
      exact ⟨h.1, derivedKey, hderived, hmac, h.2⟩
    · rw [deriveSecretKey_mismatch hderived hmac] at h
      cases h
  · rintro ⟨hlong, derivedKey, hderived, hmac, htext⟩
    rw [deriveSecretKey_authentic hderived hmac, hopen hderived]
    exact ⟨hlong, htext⟩

/-- The array for the key does not fit on the stack, or the right password leads AES past the
end of its buffers. -/
def Overruns (data : EncryptedData) (password : Bytes) : Prop :=
  WalletCrypto.stackHolds data.kdfParams.dklen = false ∨
    TooShort data ∧ ∃ derivedKey, Crypto.scrypt password data.kdfParams = .ok derivedKey ∧
      Authentic data derivedKey

theorem deriveSecretKey_crash_iff :
    Crashes (deriveSecretKey data password) ↔ Overruns data password := by
  rw [Overruns, ← @scrypt_crash_iff _ password]
  constructor
  · intro h
    rcases bind_eq_error h with hcrash | ⟨derivedKey, hderived, -⟩
    · exact .inl hcrash
    by_cases hmac : Authentic data derivedKey
    · have hlength := length_scrypt hderived
      rw [deriveSecretKey_authentic hderived hmac, aes128ctrDecrypt_crash_iff,
        List.length_take] at h
      exact .inr ⟨by rw [TooShort]; omega, derivedKey, hderived, hmac⟩
    · rw [deriveSecretKey_mismatch hderived hmac] at h
      cases h
  · rintro (hcrash | ⟨hshort, derivedKey, hderived, hmac⟩)
    · exact bind_eq_error_iff.mpr (.inl hcrash)
    · have hlength := length_scrypt hderived
      rw [TooShort] at hshort
      rw [deriveSecretKey_authentic hderived hmac, aes128ctrDecrypt_crash_iff, List.length_take]
      omega

end Derived

end Crypto

theorem checkParam_ok_iff {T : Type} [DecidableEq T] {toText : T → Bytes} {param expectedParam : T}
    {error : Bytes} : checkParam toText param expectedParam error = .ok () ↔ param = expectedParam := by
  rw [checkParam]
  split
  · rename_i hne
    exact iff_of_false (by simp) hne
  · rename_i heq
    exact iff_of_true rfl (not_not.mp heq)

theorem IFile.checkFile_ok_iff {files : Files} {path content : Bytes} :
    checkFile files path (ascii "json") = .ok content ↔
      files path = some content ∧ getFileExtension path = ascii "json" :=
  ⟨fun h => checkFile_extension h (by decide), fun h => checkFile_eq h.1 h.2⟩

namespace KeyFileReader

structure Supported (data : EncryptedData) : Prop where
  version : data.version = keyFileVersion
  cipher : data.cipher = keyFileCipherAlgorithm
  kdf : data.kdf = keyFileDerivationFunction

variable [Platform] {files : Files} {filePath : Bytes}

def Holds (files : Files) (filePath : Bytes) (data : EncryptedData) : Prop :=
  IFile.getFileExtension filePath = ascii "json" ∧ Supported data ∧
    ∃ file, files filePath = some file ∧ getFileContent file = .ok data

variable [WalletCrypto]

theorem new_eq {password : Bytes} {data : EncryptedData} (h : Holds files filePath data) :
    new files filePath password = (deriveSecretKey data password).map mk := by
  obtain ⟨hextension, ⟨hversion, hcipher, hkdf⟩, file, hfile, hdata⟩ := h
  rw [new, IFile.checkFile_ok_iff.mpr ⟨hfile, hextension⟩]
  simp only [bind, Except.bind, hdata, checkParam_ok_iff.mpr hversion,
    checkParam_ok_iff.mpr hcipher, checkParam_ok_iff.mpr hkdf]
  cases deriveSecretKey data password <;> rfl

theorem holds_of_new {password : Bytes}
    (h : (∃ reader, new files filePath password = .ok reader) ∨
      Crashes (new files filePath password)) : ∃ data, Holds files filePath data := by
  rw [Crashes, new] at h
  have hfirst {α : Type} {x : Except Exception α} {f : α → Except Exception KeyFileReader}
      (hx : Catchable x) (h : (∃ reader, (x >>= f) = .ok reader) ∨ Crashes (x >>= f)) :
      ∃ a, x = .ok a ∧ ((∃ reader, f a = .ok reader) ∨ Crashes (f a)) := by
    rcases h with ⟨reader, h⟩ | h
    · obtain ⟨a, ha, h⟩ := bind_eq_ok h
      exact ⟨a, ha, .inl ⟨reader, h⟩⟩
    · obtain ⟨a, ha, h⟩ := hx.crashes_bind_iff.mp h
      exact ⟨a, ha, .inr h⟩
  obtain ⟨file, hfile, h⟩ := hfirst (IFile.catchable_checkFile _ _ _) h
  obtain ⟨data, hdata, h⟩ := hfirst (catchable_getFileContent _) h
  obtain ⟨_, hversion, h⟩ := hfirst (catchable_checkParam _ _ _ _) h
  obtain ⟨_, hcipher, h⟩ := hfirst (catchable_checkParam _ _ _ _) h
  obtain ⟨_, hkdf, -⟩ := hfirst (catchable_checkParam _ _ _ _) h
  obtain ⟨hfile, hextension⟩ := IFile.checkFile_ok_iff.mp hfile
  exact ⟨data, hextension, ⟨checkParam_ok_iff.mp hversion, checkParam_ok_iff.mp hcipher,
    checkParam_ok_iff.mp hkdf⟩, file, hfile, hdata⟩

theorem new_crash_iff (files : Files) (filePath password : Bytes) :
    Crashes (new files filePath password) ↔
      ∃ data, Holds files filePath data ∧ Overruns data password := by
  constructor
  · intro h
    obtain ⟨data, hdata⟩ := holds_of_new (.inr h)
    rw [new_eq hdata, crashes_map_iff, deriveSecretKey_crash_iff] at h
    exact ⟨data, hdata, h⟩
  · rintro ⟨data, hdata, hoverruns⟩
    rw [new_eq hdata, crashes_map_iff, deriveSecretKey_crash_iff]
    exact hoverruns

/-- The data of a key file for a secret key: the text and the code are made with the two halves
of the derived key, which are long enough. -/
structure Seals (data : EncryptedData) (password secretKey : Bytes) : Prop where
  long : ¬ TooShort data
  sealed : ∃ derivedKey, Crypto.scrypt password data.kdfParams = .ok derivedKey ∧
    Authentic data derivedKey ∧ data.cipherText = encrypted derivedKey data.iv secretKey

/-- A key file opens to the secret key that it seals. -/
theorem new_sealed_iff (files : Files) (filePath password : Bytes) :
    (∀ reader, new files filePath password = .ok reader ↔
      ∃ data, Holds files filePath data ∧ Seals data password reader.secretKey) ∧
    (new files filePath password = .error .invalidAccess ↔
      ∃ data, Holds files filePath data ∧ Overruns data password) := by
  refine ⟨fun reader => ?_, new_crash_iff files filePath password⟩
  constructor
  · intro h
    obtain ⟨data, hdata⟩ := holds_of_new (.inl ⟨reader, h⟩)
    rw [new_eq hdata] at h
    obtain ⟨secretKey, hsecretKey, rfl⟩ := map_eq_ok h
    obtain ⟨hlong, hsealed⟩ := deriveSecretKey_ok_iff.mp hsecretKey
    exact ⟨data, hdata, hlong, hsealed⟩
  · rintro ⟨data, hdata, hlong, hsealed⟩
    rw [new_eq hdata, deriveSecretKey_ok_iff.mpr ⟨hlong, hsealed⟩]
    rfl

end KeyFileReader

end MxSdk
