import MxSdk.Account.Address
import MxSdk.Lib.Decimal
import MxSdk.Vendor.Keccak
import MxSdk.Wrappers.CryptoSignWrapper

/-! transaction/signer.cpp and transaction/messagesigner.cpp. The key of a signer is
always the secret key of a seed. -/

namespace MxSdk

namespace MessageSigner

def erdSignedMsgPrefix : Bytes := 0x17 :: ascii "Elrond Signed Message:\n"

/-- What is hashed for a message. -/
def erdMsg (message : Bytes) : Bytes :=
  erdSignedMsgPrefix ++ Decimal.decimal message.length ++ message

def computeERDPrefixedMsgHash (message : Bytes) : Bytes := Keccak.sha3Keccak (erdMsg message)

end MessageSigner

variable [Sodium]

structure Signer where
  sk : Bytes
  ofSeed : ∃ seed : Bytes, seed.length = seedLength ∧ sk = Crypto.getSecretKey seed

namespace Signer

def new (seed : Bytes) : Except Exception Signer :=
  if h : seed.length ≠ seedLength then throw (.lengthError errorMsgKeyBytesSize)
  else .ok ⟨Crypto.getSecretKey seed, seed, not_not.mp h, rfl⟩

def getSignature (signer : Signer) (message : Bytes) : Bytes :=
  Crypto.getSignature signer.sk message

/-- `verify` of an object. -/
def verifyOwn (signer : Signer) (signature message : Bytes) : Bool :=
  let publicKey := Crypto.getPublicKey signer.sk
  Crypto.verify signature message publicKey

/-- The static `verify` with a key. -/
def verifyKey (signature message publicKey : Bytes) : Bool :=
  Crypto.verify signature message publicKey

/-- The static `verify` with an address. -/
def verify (signature message : Bytes) (address : Address) : Bool :=
  Crypto.verify signature message address.publicKey

theorem new_ok {seed : Bytes} (h : seed.length = seedLength) :
    ∃ signer, new seed = .ok signer ∧ signer.sk = Crypto.getSecretKey seed := by
  rw [new, dif_neg (not_not.mpr h)]
  exact ⟨_, rfl, rfl⟩

theorem verifyOwn_getSignature (hs : Sodium.Lawful) (signer : Signer) (message : Bytes) :
    signer.verifyOwn (signer.getSignature message) message = true := by
  obtain ⟨seed, hseed, hsk⟩ := signer.ofSeed
  rw [verifyOwn, getSignature, hsk, Crypto.getPublicKey, Crypto.getSecretKey,
    hs.skToPk_seedKeypair seed hseed]
  exact hs.verifyDetached_detached seed message hseed

end Signer

structure MessageSigner extends Signer

namespace MessageSigner

def new (seed : Bytes) : Except Exception MessageSigner := do
  .ok ⟨← Signer.new seed⟩

def getSignature (signer : MessageSigner) (message : Bytes) : Bytes :=
  signer.toSigner.getSignature (computeERDPrefixedMsgHash message)

def verifyOwn (signer : MessageSigner) (signature message : Bytes) : Bool :=
  signer.toSigner.verifyOwn signature (computeERDPrefixedMsgHash message)

def verifyKey (signature message publicKey : Bytes) : Bool :=
  Signer.verifyKey signature (computeERDPrefixedMsgHash message) publicKey

def verify (signature message : Bytes) (address : Address) : Bool :=
  Signer.verify signature (computeERDPrefixedMsgHash message) address

end MessageSigner

end MxSdk
