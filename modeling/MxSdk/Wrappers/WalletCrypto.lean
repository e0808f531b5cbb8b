import MxSdk.Account.Address
import MxSdk.Vendor.Aes
import MxSdk.Wrappers.CryptoSignWrapper

/-! The functions of wrappers/cryptosignwrapper.cpp that only wallets need, over the rest
of libsodium and the vendored AES in counter mode. -/

namespace MxSdk

def secretKeyLength : Nat := 64

/-- The parts of internal.h that are read. -/
structure KdfParams where
  dklen : UInt32
  n : UInt32
  r : UInt32
  p : UInt32
  salt : Bytes
  deriving DecidableEq

structure EncryptedData where
  version : UInt32
  kdf : Bytes
  kdfParams : KdfParams
  iv : Bytes
  cipher : Bytes
  cipherText : Bytes
  mac : Bytes
  deriving DecidableEq

class WalletCrypto where
  /-- Whether an array of this length fits on the stack. -/
  stackHolds (length : UInt32) : Bool
  skToSeed (secretKey : Bytes) : Bytes
  /-- `none` where it returns an error. -/
  scryptsalsa208sha256 (password salt : Bytes) (n r p keyLength : UInt32) :
    Option { key : Bytes // key.length = keyLength.toNat }
  authHmacsha256 (key message : Bytes) : Bytes

/-- A secret key is a seed and a public key. -/
structure WalletCrypto.Lawful [Sodium] [WalletCrypto] : Prop where
  skToSeed_eq : ∀ secretKey : Bytes, secretKeyLength ≤ secretKey.length →
    skToSeed secretKey = secretKey.take seedLength
  skToPk_eq : ∀ secretKey : Bytes, secretKeyLength ≤ secretKey.length →
    Sodium.skToPk secretKey = (secretKey.drop seedLength).take publicKeyLength

namespace Crypto

/-- A function of C reads this many bytes of a buffer, whose length it is not told. -/
def read (length : Nat) (buffer : Bytes) : Except Exception Unit :=
  if buffer.length < length then throw .invalidAccess else .ok ()

theorem read_ok_iff {length : Nat} {buffer : Bytes} :
    read length buffer = .ok () ↔ length ≤ buffer.length := by
  rw [read]
  split
  · exact iff_of_false nofun (by omega)
  · exact iff_of_true rfl (by omega)

theorem read_error_iff {length : Nat} {buffer : Bytes} {e : Exception} :
    read length buffer = .error e ↔ e = .invalidAccess ∧ buffer.length < length := by
  rw [read]
  split
  · rename_i hshort
    exact ⟨fun h => ⟨(Except.error.inj h).symm, hshort⟩, fun h => by rw [h.1]; rfl⟩
  · rename_i hlong
    exact iff_of_false nofun fun h => hlong h.2

/-- The block at the beginning of a buffer. -/
def block (buffer : Bytes) : Aes.Block := Vector.ofFn fun i => buffer.getD i.val 0

def aes128ctrDecrypt (key cipherText iv : Bytes) : Except Exception Bytes := do
  read Aes.keyLen key
  -- Behind the bytes of a string there is a zero.
  read Aes.blockLen (iv ++ [0])
  let ctx := Aes.initCtxIv (block key) (block iv)
  .ok (Aes.ctrXcryptBuffer ctx cipherText).2

variable [WalletCrypto]

def getSeed (secretKey : Bytes) : Except Exception Bytes := do
  read seedLength secretKey
  .ok (WalletCrypto.skToSeed secretKey)

def scrypt (password : Bytes) (kdfParams : KdfParams) : Except Exception Bytes := do
  let keyLength := kdfParams.dklen
  if !WalletCrypto.stackHolds keyLength then throw .invalidAccess
  match WalletCrypto.scryptsalsa208sha256 password kdfParams.salt kdfParams.n kdfParams.r
    kdfParams.p keyLength with
  | none => throw (.runtimeError errorMsgScryptsy)
  | some derivedKey => .ok derivedKey.val

def hmacsha256 (key cipherText : Bytes) : Bytes := WalletCrypto.authHmacsha256 key cipherText

end Crypto

end MxSdk
