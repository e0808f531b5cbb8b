import MxSdk.Transaction.Signing
import MxSdk.Vendor.Json.Strings

/-! The signatures that reach libsodium. It reads 64 bytes without being told a length,
and no function on the way looks at the length. -/

namespace MxSdk

def signatureLength : Nat := 64

/-- The arguments of a call of `crypto_sign_verify_detached`. -/
structure DetachedCall where
  signature : Bytes
  message : Bytes
  publicKey : Bytes

section Calls
variable [Sodium]

inductive Verification where
  | transaction (t : Transaction)
  | signerOwn (signer : Signer) (signature message : Bytes)
  | signerKey (signature message publicKey : Bytes)
  | signerAddress (signature message : Bytes) (address : Address)
  | messageSignerOwn (signer : MessageSigner) (signature message : Bytes)
  | messageSignerKey (signature message publicKey : Bytes)
  | messageSignerAddress (signature message : Bytes) (address : Address)

namespace Verification
open MessageSigner (computeERDPrefixedMsgHash)

variable [Platform]

def run : Verification → Except Exception Bool
  | transaction t => t.verify
  | signerOwn signer signature message => .ok (signer.verifyOwn signature message)
  | signerKey signature message publicKey => .ok (Signer.verifyKey signature message publicKey)
  | signerAddress signature message address => .ok (Signer.verify signature message address)
  | messageSignerOwn signer signature message => .ok (signer.verifyOwn signature message)
  | messageSignerKey signature message publicKey =>
    .ok (MessageSigner.verifyKey signature message publicKey)
  | messageSignerAddress signature message address =>
    .ok (MessageSigner.verify signature message address)

/-- The call of libsodium it comes to, or the exception before that. -/
def reaches : Verification → Except Exception DetachedCall
  | transaction t => do
    let some signature := t.signature | throw (.runtimeError errorMsgSignature)
    let some sender := t.sender | throw (.runtimeError errorMsgSender)
    let txSerialized ← Transaction.getSerializedTxMsg t false
    let tmpSign ← Hex.hexToString signature
    .ok ⟨tmpSign, txSerialized, sender.publicKey⟩
  | signerOwn signer signature message => .ok ⟨signature, message, Crypto.getPublicKey signer.sk⟩
  | signerKey signature message publicKey => .ok ⟨signature, message, publicKey⟩
  | signerAddress signature message address => .ok ⟨signature, message, address.publicKey⟩
  | messageSignerOwn signer signature message =>
    .ok ⟨signature, computeERDPrefixedMsgHash message, Crypto.getPublicKey signer.sk⟩
  | messageSignerKey signature message publicKey =>
    .ok ⟨signature, computeERDPrefixedMsgHash message, publicKey⟩
  | messageSignerAddress signature message address =>
    .ok ⟨signature, computeERDPrefixedMsgHash message, address.publicKey⟩

theorem run_eq (v : Verification) : v.run = v.reaches.map fun call =>
    Sodium.verifyDetached call.signature call.message call.publicKey := by
  cases v with
  | transaction t =>
    rw [run, reaches, Transaction.verify]
    cases t.signature with
    | none => rfl
    | some signature =>
      cases t.sender with
      | none => rfl
      | some sender =>
        simp only
        cases Transaction.getSerializedTxMsg t false with
        | error e => rfl
        | ok m => cases Hex.hexToString signature <;> rfl
  | signerOwn | signerKey | signerAddress | messageSignerOwn | messageSignerKey
  | messageSignerAddress => rfl

/-- An exception, or a call with a signature of the length that is read. -/
def MeetsLength (v : Verification) : Prop :=
  (∃ e, v.reaches = .error e) ∨
    ∃ call, v.reaches = .ok call ∧ call.signature.length = signatureLength

end Verification

end Calls

namespace Transaction

variable [Platform] {t : Transaction}

theorem wellFormed_chainId {text : Bytes} (h : t.serialize = .ok text) :
    Utf8.WellFormed t.chainId := by
  have hmem : (txChainId, Json.string t.chainId) ∈ members t :=
    List.mem_filterMap.mpr ⟨.chainId, TxKey.mem_written _, rfl⟩
  exact Json.parse_wellFormed (parse_serialize h) _
    (Json.mem_stringsOfMembers.mpr ⟨_, hmem, .inr List.mem_cons_self⟩)

theorem serialize_unsigned_iff : (∃ text, t.unsigned.serialize = .ok text) ↔
    (∃ receiver, t.receiver = some receiver) ∧ (∃ sender, t.sender = some sender) ∧
      Utf8.WellFormed t.chainId := by
  constructor
  · rintro ⟨text, htext⟩
    obtain ⟨receiver, sender, hr, hs⟩ := isSome_of_serialize htext
    have hchain : Utf8.WellFormed t.unsigned.chainId := wellFormed_chainId htext
    exact ⟨⟨receiver, hr⟩, ⟨sender, hs⟩, hchain⟩
  · rintro ⟨⟨receiver, hr⟩, ⟨sender, hs⟩, hchain⟩
    exact serialize_ok (t := t.unsigned) hr hs ⟨hchain, nofun⟩

theorem getSerializedTxMsg_ok_iff : (∃ m, getSerializedTxMsg t false = .ok m) ↔
    (∃ receiver, t.receiver = some receiver) ∧ (∃ sender, t.sender = some sender) ∧
      Utf8.WellFormed t.chainId := by
  rw [← serialize_unsigned_iff, getSerializedTxMsg_eq]
  cases t.unsigned.serialize with
  | error e => exact ⟨fun ⟨_, h⟩ => (nomatch h), fun ⟨_, h⟩ => (nomatch h)⟩
  | ok text => exact ⟨fun _ => ⟨text, rfl⟩, fun _ => ⟨_, rfl⟩⟩

end Transaction

section Lengths
variable [Sodium]

namespace Verification

/-- A transaction that is complete and has a hexadecimal signature needs one of 128 digits;
the other functions need one of 64 bytes. -/
def HasLength : Verification → Prop
  | transaction t => ∀ signature receiver sender, t.signature = some signature →
      t.receiver = some receiver → t.sender = some sender → Utf8.WellFormed t.chainId →
      Hex.IsHexText signature → signature.length = 2 * signatureLength
  | signerOwn _ signature _ | signerKey signature _ _ | signerAddress signature _ _
  | messageSignerOwn _ signature _ | messageSignerKey signature _ _
  | messageSignerAddress signature _ _ => signature.length = signatureLength

variable [Platform]

theorem meetsLength_of_ok {v : Verification} {call : DetachedCall} (h : v.reaches = .ok call) :
    v.MeetsLength ↔ call.signature.length = signatureLength := by
  rw [MeetsLength, h]
  constructor
  · rintro (⟨e, he⟩ | ⟨call', hcall, hlength⟩)
    · cases he
    · rwa [← Except.ok.inj hcall] at hlength
  · exact fun hlength => .inr ⟨call, rfl, hlength⟩

theorem meetsLength_direct {v : Verification} {signature message publicKey : Bytes}
    (h : v.reaches = .ok ⟨signature, message, publicKey⟩) :
    v.MeetsLength ↔ signature.length = signatureLength := meetsLength_of_ok h

theorem reaches_transaction {t : Transaction} :
    (∃ e, (transaction t).reaches = .error e) ∨ ∃ signature receiver sender call,
      t.signature = some signature ∧ t.receiver = some receiver ∧ t.sender = some sender ∧
        Utf8.WellFormed t.chainId ∧ Hex.hexToString signature = .ok call.signature ∧
        (transaction t).reaches = .ok call := by
  rw [reaches]
  cases hsignature : t.signature with
  | none => exact .inl ⟨_, rfl⟩
  | some signature =>
    cases hsender : t.sender with
    | none => exact .inl ⟨_, rfl⟩
    | some sender =>
      cases hm : Transaction.getSerializedTxMsg t false with
      | error e => exact .inl ⟨e, rfl⟩
      | ok m =>
        obtain ⟨⟨receiver, hr⟩, -, hchain⟩ := Transaction.getSerializedTxMsg_ok_iff.mp ⟨m, hm⟩
        cases hhex : Hex.hexToString signature with
        | error e => exact .inl ⟨e, by simp only [hhex]; rfl⟩
        | ok s =>
          exact .inr ⟨signature, receiver, sender, ⟨s, m, sender.publicKey⟩, rfl, hr, rfl, hchain,
            hhex, by simp only [hhex]; rfl⟩

theorem reaches_complete {t : Transaction} {signature : Bytes} {receiver sender : Address}
    (hsignature : t.signature = some signature) (hr : t.receiver = some receiver)
    (hs : t.sender = some sender) (hchain : Utf8.WellFormed t.chainId)
    (hhex : Hex.IsHexText signature) : ∃ call, Hex.hexToString signature = .ok call.signature ∧
      (transaction t).reaches = .ok call := by
  obtain ⟨s, hs'⟩ := Hex.hexToString_ok_iff.mpr hhex
  obtain ⟨m, hm⟩ := Transaction.getSerializedTxMsg_ok_iff.mpr ⟨⟨receiver, hr⟩, ⟨sender, hs⟩, hchain⟩
  refine ⟨⟨s, m, sender.publicKey⟩, hs', ?_⟩
  rw [reaches]
  simp only [hsignature, hs, hm, hs']
  rfl

theorem meetsLength_iff (v : Verification) :
    (v.run = v.reaches.map fun call =>
      Sodium.verifyDetached call.signature call.message call.publicKey) ∧
    (v.MeetsLength ↔ v.HasLength) := by
  refine ⟨run_eq v, ?_⟩
  cases v with
  | transaction t =>
    constructor
    · intro h signature receiver sender hsignature hr hs hchain hhex
      obtain ⟨call, hcall, hreach⟩ := reaches_complete hsignature hr hs hchain hhex
      rw [meetsLength_of_ok hreach] at h
      rw [← Hex.length_hexToString hcall, h]
    · intro h
      rcases reaches_transaction (t := t) with hthrow |
        ⟨signature, receiver, sender, call, hsignature, hr, hs, hchain, hcall, hreach⟩
      · exact .inl hthrow
      · have hlength := h signature receiver sender hsignature hr hs hchain
          (Hex.hexToString_ok_iff.mp ⟨_, hcall⟩)
        rw [meetsLength_of_ok hreach]
        have := Hex.length_hexToString hcall
        omega
  | signerOwn | signerKey | signerAddress | messageSignerOwn | messageSignerKey
  | messageSignerAddress => exact meetsLength_direct rfl

end Verification

end Lengths

theorem Verification.meetsLength_short_fails : ¬ ∀ t : Transaction,
    @MeetsLength Transaction.paymentSodium .arbitrary (@transaction Transaction.paymentSodium t) := by
  intro h
  have hshort := h { Transaction.payment with signature := some (ascii "00") }
  obtain ⟨call, hcall, hreach⟩ := @reaches_complete Transaction.paymentSodium .arbitrary
    { Transaction.payment with signature := some (ascii "00") } (ascii "00") Transaction.bob
    Transaction.alice rfl rfl rfl (Utf8.wellFormed_ascii (by decide +kernel))
    (Hex.hexToString_ok_iff.mp ⟨[0], rfl⟩)
  rw [@meetsLength_of_ok Transaction.paymentSodium .arbitrary _ _ hreach] at hshort
  have hlength := Hex.length_hexToString hcall
  rw [hshort] at hlength
  exact absurd hlength (by decide +kernel)

end MxSdk
