import MxSdk.FileHandler.PemFileReader
import MxSdk.Lib.Decimal
import MxSdk.Vendor.Json.Parser
import MxSdk.Wrappers.WalletCrypto

/-! filehandler/keyfilereader.cpp. Whatever is thrown while a file is parsed becomes an
`invalid_argument`, and so does the null that the library inserts for a missing key. -/

namespace MxSdk

def keyFileVersion : UInt32 := 4
def keyFileDerivationFunction : Bytes := ascii "scrypt"
def keyFileCipherAlgorithm : Bytes := ascii "aes-128-ctr"

section Crypto
variable [WalletCrypto]

def deriveSecretKey (data : EncryptedData) (password : Bytes) : Except Exception Bytes := do
  let derivedKey ← Crypto.scrypt password data.kdfParams
  let derivedKeyLength := derivedKey.length
  let derivedKeyFirstHalf := derivedKey.take (derivedKeyLength / 2)
  let derivedKeySecondHalf := derivedKey.drop (derivedKeyLength / 2)
  let computedMac := Crypto.hmacsha256 derivedKeySecondHalf data.cipherText
  if computedMac ≠ data.mac then throw (.runtimeError errorMsgMac)
  Crypto.aes128ctrDecrypt derivedKeyFirstHalf data.cipherText data.iv

theorem length_deriveSecretKey {data : EncryptedData} {password secretKey : Bytes}
    (h : deriveSecretKey data password = .ok secretKey) :
    secretKey.length = data.cipherText.length := by
  obtain ⟨derivedKey, -, h⟩ := bind_eq_ok h
  simp only at h
  split at h
  · cases h
  · obtain ⟨-, -, h⟩ := bind_eq_ok h
    obtain ⟨-, -, h⟩ := bind_eq_ok h
    rw [← Except.ok.inj h]
    exact Aes.length_ctrXcryptBuffer _ _

end Crypto

structure KeyFileReader where
  secretKey : Bytes

namespace KeyFileReader

section Content
variable [Platform]

def readFileContent (file : Bytes) : Option EncryptedData := do
  let json ← Json.parse file
  let crypto ← json.find (ascii "crypto")
  let kdfparams ← crypto.find (ascii "kdfparams")
  let version ← (← json.find (ascii "version")).getUInt32
  let kdf ← (← crypto.find (ascii "kdf")).getString
  let cipher ← (← crypto.find (ascii "cipher")).getString
  let dklen ← (← kdfparams.find (ascii "dklen")).getUInt32
  let n ← (← kdfparams.find (ascii "n")).getUInt32
  let r ← (← kdfparams.find (ascii "r")).getUInt32
  let p ← (← kdfparams.find (ascii "p")).getUInt32
  let salt ← (Hex.hexToString (← (← kdfparams.find (ascii "salt")).getString)).toOption
  let cipherparams ← crypto.find (ascii "cipherparams")
  let iv ← (Hex.hexToString (← (← cipherparams.find (ascii "iv")).getString)).toOption
  let cipherText ← (Hex.hexToString (← (← crypto.find (ascii "ciphertext")).getString)).toOption
  let mac ← (Hex.hexToString (← (← crypto.find (ascii "mac")).getString)).toOption
  some { version, kdf, kdfParams := { dklen, n, r, p, salt }, iv, cipher, cipherText, mac }

def getFileContent (file : Bytes) : Except Exception EncryptedData :=
  match readFileContent file with
  | some data => .ok data
  | none => throw (.invalidArgument errorMsgKeyFile)

variable [WalletCrypto]

def new (files : Files) (filePath password : Bytes) : Except Exception KeyFileReader := do
  let file ← IFile.checkFile files filePath (ascii "json")
  let data ← getFileContent file
  checkParam (fun version => Decimal.decimal version.toNat) data.version keyFileVersion
    errorMsgKeyFileVersion
  checkParam id data.cipher keyFileCipherAlgorithm errorMsgKeyFileCipher
  checkParam id data.kdf keyFileDerivationFunction errorMsgKeyFileDerivationFunction
  .ok ⟨← deriveSecretKey data password⟩

theorem new_ok {files : Files} {filePath password file : Bytes} {reader : KeyFileReader}
    {data : EncryptedData} (h : new files filePath password = .ok reader)
    (hfile : files filePath = some file) (hdata : getFileContent file = .ok data) :
    deriveSecretKey data password = .ok reader.secretKey := by
  obtain ⟨content, hcontent, h⟩ := bind_eq_ok h
  rw [IFile.checkFile_ok hcontent, Option.some.injEq] at hfile
  obtain ⟨data', hdata', h⟩ := bind_eq_ok h
  rw [hfile, hdata] at hdata'
  obtain rfl := Except.ok.inj hdata'
  obtain ⟨-, -, h⟩ := bind_eq_ok h
  obtain ⟨-, -, h⟩ := bind_eq_ok h
  obtain ⟨-, -, h⟩ := bind_eq_ok h
  obtain ⟨secretKey, hsecretKey, h⟩ := bind_eq_ok h
  rw [hsecretKey, ← Except.ok.inj h]

end Content

section Methods
variable [Sodium] [WalletCrypto]

/-- `getPublicKey` reads a whole secret key, as every signer has. -/
def getAddress (t : KeyFileReader) : Except Exception Address := do
  Crypto.read secretKeyLength t.secretKey
  let publicKey := Crypto.getPublicKey t.secretKey
  Address.ofPublicKey publicKey

def getSeed (t : KeyFileReader) : Except Exception Bytes := Crypto.getSeed t.secretKey

def toSecretKey (t : KeyFileReader) : ISecretKey := ⟨t.getAddress, t.getSeed⟩

end Methods

end KeyFileReader

end MxSdk
