import MxSdk.Basic

/-! wrappers/cryptosignwrapper.cpp over libsodium, whose Ed25519 functions are left
open. The lengths of keys and signatures are those of its buffers. -/

namespace MxSdk

def seedLength : Nat := 32

/-- The functions of libsodium under the names they have there after `crypto_sign_`. -/
class Sodium where
  seedKeypair (seed : Bytes) : Bytes × Bytes
  skToPk (secretKey : Bytes) : Bytes
  detached (message secretKey : Bytes) : Bytes
  verifyDetached (signature message publicKey : Bytes) : Bool

/-- What libsodium documents of them. -/
structure Sodium.Lawful [Sodium] : Prop where
  skToPk_seedKeypair : ∀ seed : Bytes, seed.length = seedLength →
    skToPk (seedKeypair seed).2 = (seedKeypair seed).1
  verifyDetached_detached : ∀ seed message : Bytes, seed.length = seedLength →
    verifyDetached (detached message (seedKeypair seed).2) message (seedKeypair seed).1 = true

namespace Crypto

variable [Sodium]

def getSignature (secretKey message : Bytes) : Bytes := Sodium.detached message secretKey

def getSecretKey (seed : Bytes) : Bytes := (Sodium.seedKeypair seed).2

def getPublicKey (secretKey : Bytes) : Bytes := Sodium.skToPk secretKey

def verify (signature message publicKey : Bytes) : Bool :=
  Sodium.verifyDetached signature message publicKey

end Crypto

end MxSdk
