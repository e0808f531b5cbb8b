import MxSdk.Transaction.RoundTrip
import MxSdk.Transaction.Signature

/-! What a signature stands for. The signed bytes do not depend on the signature, they
determine the rest of the transaction, and they are never the bytes signed for a
message, unless two given texts have one digest. A text is longer than a digest and
begins with a brace, a message is hashed behind a prefix that does not. -/

namespace MxSdk.Transaction
open Record

def unsigned (t : Transaction) : Transaction := { t with signature := none }

def signed (t : Transaction) (signature : Bytes) : Transaction :=
  { t with signature := some (Hex.stringToHex signature) }

def Collide (s s' : Bytes) : Prop := s ≠ s' ∧ Keccak.sha3Keccak s = Keccak.sha3Keccak s'

theorem eq_or_collide {s s' : Bytes} (h : Keccak.sha3Keccak s = Keccak.sha3Keccak s') :
    s = s' ∨ Collide s s' := by
  by_cases hs : s = s'
  · exact .inl hs
  · exact .inr ⟨hs, h⟩

section Platform
variable [Platform] {t : Transaction}

theorem getSerializedTxMsg_eq (t : Transaction) : getSerializedTxMsg t false =
    t.unsigned.serialize.map fun text =>
      if shouldSignHash t then Keccak.sha3Keccak text else text := by
  rw [getSerializedTxMsg]
  change (t.unsigned.serialize >>= _) = _
  cases t.unsigned.serialize <;> rfl

theorem text_of_getSerializedTxMsg {m : Bytes} (h : getSerializedTxMsg t false = .ok m) :
    ∃ text, t.unsigned.serialize = .ok text ∧
      m = if shouldSignHash t then Keccak.sha3Keccak text else text := by
  rw [getSerializedTxMsg_eq] at h
  cases htext : t.unsigned.serialize with
  | error e =>
    rw [htext] at h
    cases h
  | ok text =>
    rw [htext] at h
    exact ⟨text, rfl, (Except.ok.inj h).symm⟩

theorem text_ne_digest {text s : Bytes} (h : t.serialize = .ok text) :
    text ≠ Keccak.sha3Keccak s := by
  intro heq
  have hlong := (serialize_shape h).2
  rw [heq, Keccak.length_sha3Keccak] at hlong
  exact Nat.lt_irrefl _ hlong

omit [Platform] in
theorem erdMsg_inj {m m' : Bytes} (h : MessageSigner.erdMsg m = MessageSigner.erdMsg m') :
    m = m' := by
  simp only [MessageSigner.erdMsg, List.append_assoc] at h
  exact Decimal.decimal_append_inj (List.append_cancel_left h)

theorem text_ne_erdMsg {text : Bytes} (h : t.serialize = .ok text) (m : Bytes) :
    text ≠ MessageSigner.erdMsg m := by
  intro heq
  have hhead := (serialize_shape h).1
  rw [heq] at hhead
  exact absurd (Option.some.inj hhead) (by decide)

theorem getSerializedTxMsg_signed (t : Transaction) (signature : Bytes) :
    getSerializedTxMsg (t.signed signature) false = getSerializedTxMsg t false := rfl

theorem sign_eq [Sodium] {m : Bytes} (h : getSerializedTxMsg t false = .ok m) (signer : Signer) :
    sign t signer = .ok (t.signed (signer.getSignature m)) := by
  rw [sign, h]
  rfl

theorem verify_eq [Sodium] {signature m : Bytes} {sender : Address}
    (hsignature : t.signature = some signature) (hsender : t.sender = some sender)
    (h : getSerializedTxMsg t false = .ok m) :
    verify t = (Hex.hexToString signature).map fun s => Signer.verify s m sender := by
  rw [verify]
  simp only [hsignature, hsender, h]
  cases Hex.hexToString signature <;> rfl

theorem verify_signed [Sodium] (hsodium : Sodium.Lawful) {signer : Signer} {seed m : Bytes}
    {sender : Address} (hseed : seed.length = seedLength)
    (hsk : signer.sk = Crypto.getSecretKey seed)
    (hsender : t.sender = some sender) (hkey : sender.publicKey = (Sodium.seedKeypair seed).1)
    (h : getSerializedTxMsg t false = .ok m) :
    verify (t.signed (signer.getSignature m)) = .ok true := by
  have haccept : Signer.verify (signer.getSignature m) m sender = true := by
    rw [Signer.verify, hkey, Signer.getSignature, hsk]
    exact hsodium.verifyDetached_detached seed m hseed
  have hverify := verify_eq (t := t.signed (signer.getSignature m)) rfl hsender
    ((getSerializedTxMsg_signed t _).trans h)
  rw [Hex.hexToString_stringToHex] at hverify
  exact hverify.trans (congrArg Except.ok haccept)

omit [Platform] in
theorem encodable_signed (hchain : Utf8.WellFormed t.chainId) (signature : Bytes) :
    (t.signed signature).Encodable := by
  refine ⟨hchain, fun s hs => ?_⟩
  rw [← Option.some.inj hs]
  exact Utf8.wellFormed_ascii fun _ => Hex.stringToHex_ascii

theorem serialize_signed {text : Bytes} (h : t.unsigned.serialize = .ok text) (signature : Bytes) :
    ∃ signedText, (t.signed signature).serialize = .ok signedText := by
  obtain ⟨receiver, sender, hr, hsender⟩ := isSome_of_serialize h
  have hchain : Utf8.WellFormed t.chainId :=
    Json.parse_wellFormed (parse_serialize h) _ (Json.mem_stringsOfMembers.mpr
      ⟨_, OrderedMap.mem_of_find (find_members t.unsigned .chainId), .inr List.mem_cons_self⟩)
  exact serialize_ok hr hsender (encodable_signed hchain signature)

end Platform

/-! The payment with its key. -/

def aliceSeed : Bytes :=
  [0x1a, 0x92, 0x7e, 0x2a, 0xf5, 0x30, 0x6a, 0x9b, 0xb2, 0xea, 0x77, 0x7f, 0x73, 0xe0, 0x6e, 0xcc,
    0x0a, 0xc9, 0xaa, 0xa7, 0x2f, 0xb4, 0xea, 0x3f, 0xec, 0xf6, 0x59, 0x45, 0x13, 0x94, 0xcc, 0xcf]

def paymentSignature : Bytes :=
  [0xb5, 0xfd, 0xdb, 0x8c, 0x16, 0xfa, 0x7f, 0x61, 0x23, 0xcb, 0x32, 0xed, 0xc8, 0x54, 0xf1, 0xe7,
    0x60, 0xa3, 0xeb, 0x62, 0xc6, 0xdc, 0x42, 0x0b, 0x5a, 0x4c, 0x04, 0x73, 0xc5, 0x8b, 0xef, 0xd4,
    0x5b, 0x62, 0x1b, 0x31, 0xa4, 0x48, 0xc5, 0xb5, 0x9e, 0x21, 0x42, 0x8f, 0x2b, 0xc1, 0x28, 0xc8,
    0x0d, 0x0e, 0xe1, 0xca, 0xa4, 0xf2, 0xbf, 0x05, 0xa1, 0x2b, 0xe8, 0x57, 0xad, 0x45, 0x1b, 0x00]

theorem serialize_payment : @serialize .arbitrary payment = .ok paymentText := by decide +kernel

theorem message_payment : @getSerializedTxMsg .arbitrary payment false = .ok paymentText := by
  rw [@getSerializedTxMsg_eq .arbitrary]
  exact congrArg (Except.map _) serialize_payment

/-- The signed bytes determine all fields but the signature. -/
theorem unsigned_eq_of_message [Platform] {t t' : Transaction} {m : Bytes}
    (h : getSerializedTxMsg t false = .ok m) (h' : getSerializedTxMsg t' false = .ok m) :
    t.unsigned = t'.unsigned ∨
      ∃ s s', t.unsigned.serialize = .ok s ∧ t'.unsigned.serialize = .ok s' ∧ Collide s s' := by
  obtain ⟨s, hs, rfl⟩ := text_of_getSerializedTxMsg h
  obtain ⟨s', hs', hm⟩ := text_of_getSerializedTxMsg h'
  have hplain (heq : s = s') : t.unsigned = t'.unsigned := serialize_inj hs (heq ▸ hs')
  cases hhash : shouldSignHash t with
  | false =>
    cases hhash' : shouldSignHash t' with
    | false =>
      simp only [hhash, hhash'] at hm
      exact .inl (hplain hm)
    | true =>
      simp only [hhash, hhash'] at hm
      exact absurd hm (text_ne_digest hs)
  | true =>
    cases hhash' : shouldSignHash t' with
    | false =>
      simp only [hhash, hhash'] at hm
      exact absurd hm.symm (text_ne_digest hs')
    | true =>
      simp only [hhash, hhash'] at hm
      rcases eq_or_collide hm with heq | hcollide
      · exact .inl (hplain heq)
      · exact .inr ⟨s, s', hs, hs', hcollide⟩

theorem unsigned_eq_of_message_payment :
    payment.unsigned = { payment with signature := some (ascii "00") }.unsigned ∨
      ∃ s s', @serialize .arbitrary payment.unsigned = .ok s ∧
        @serialize .arbitrary { payment with signature := some (ascii "00") }.unsigned = .ok s' ∧
        Collide s s' :=
  @unsigned_eq_of_message .arbitrary payment { payment with signature := some (ascii "00") }
    paymentText message_payment message_payment

/-- Distinct messages are hashed as distinct texts, and none of these is hashed or
signed for a transaction. -/
theorem erdMsg_separate [Platform] :
    (∀ m, MessageSigner.computeERDPrefixedMsgHash m =
      Keccak.sha3Keccak (MessageSigner.erdMsg m)) ∧
    (∀ m m', MessageSigner.erdMsg m = MessageSigner.erdMsg m' → m = m') ∧
      ∀ m (t : Transaction) b, getSerializedTxMsg t false = .ok b →
        MessageSigner.computeERDPrefixedMsgHash m ≠ b ∨
          ∃ s, t.unsigned.serialize = .ok s ∧ Collide s (MessageSigner.erdMsg m) := by
  refine ⟨fun _ => rfl, fun m m' h => erdMsg_inj h, fun m t b h => ?_⟩
  obtain ⟨s, hs, rfl⟩ := text_of_getSerializedTxMsg h
  cases hhash : shouldSignHash t with
  | false => exact .inl fun heq => text_ne_digest hs heq.symm
  | true =>
    by_cases heq : MessageSigner.computeERDPrefixedMsgHash m = Keccak.sha3Keccak s
    · exact .inr ⟨s, hs, text_ne_erdMsg hs m, heq.symm⟩
    · exact .inl heq

theorem erdMsg_separate_payment :
    ascii "12" = ascii "12" ∧
      (MessageSigner.computeERDPrefixedMsgHash (ascii "12") ≠ paymentText ∨
        ∃ s, @serialize .arbitrary payment.unsigned = .ok s ∧
          Collide s (MessageSigner.erdMsg (ascii "12"))) :=
  ⟨(@erdMsg_separate .arbitrary).2.1 _ _ rfl,
    (@erdMsg_separate .arbitrary).2.2 (ascii "12") payment paymentText message_payment⟩

def signatureOf (message publicKey : Bytes) : Bytes :=
  if message = paymentText ∧ publicKey = alice.publicKey then paymentSignature
  else publicKey ++ publicKey

def publicKeyOf (seed : Bytes) : Bytes := if seed = aliceSeed then alice.publicKey else seed

/-- Ed25519 for the payment, with the values of the tests, and a lawful stand-in for
other seeds and messages. -/
@[reducible] def paymentSodium : Sodium where
  seedKeypair seed := (publicKeyOf seed, seed ++ publicKeyOf seed)
  skToPk secretKey := secretKey.drop seedLength
  detached message secretKey := signatureOf message (secretKey.drop seedLength)
  verifyDetached signature message publicKey := signature = signatureOf message publicKey

theorem paymentSodium_lawful : @Sodium.Lawful paymentSodium :=
  @Sodium.Lawful.mk paymentSodium (fun _ h => List.drop_left' h) fun _ message h =>
    decide_eq_true (congrArg (signatureOf message) (List.drop_left' h))

theorem verify_sign [Platform] [Sodium] (hsodium : Sodium.Lawful) {t : Transaction} {seed : Bytes}
    (hseed : seed.length = seedLength) {sender : Address} (hsender : t.sender = some sender)
    (hkey : sender.publicKey = (Sodium.seedKeypair seed).1) {text : Bytes}
    (htext : t.unsigned.serialize = .ok text) :
    ∃ signer t', Signer.new seed = .ok signer ∧ sign t signer = .ok t' ∧
      verify t' = .ok true ∧ t'.unsigned = t.unsigned ∧ sign t' signer = .ok t' := by
  obtain ⟨signer, hsigner, hsk⟩ := Signer.new_ok hseed
  obtain ⟨m, hm⟩ : ∃ m, getSerializedTxMsg t false = .ok m := by
    rw [getSerializedTxMsg_eq, htext]
    exact ⟨_, rfl⟩
  exact ⟨signer, _, hsigner, sign_eq hm signer, verify_signed hsodium hseed hsk hsender hkey hm,
    rfl, sign_eq hm signer⟩

theorem verify_sign_payment : ∃ signer t', @Signer.new paymentSodium aliceSeed = .ok signer ∧
    @sign .arbitrary paymentSodium payment signer = .ok t' ∧
    @verify .arbitrary paymentSodium t' = .ok true ∧ t'.unsigned = payment.unsigned ∧
    @sign .arbitrary paymentSodium t' signer = .ok t' :=
  @verify_sign .arbitrary paymentSodium paymentSodium_lawful payment aliceSeed rfl alice rfl
    (by decide +kernel) paymentText serialize_payment

/-- A signed transaction that was sent as text is verified by whoever reads it. -/
theorem verify_received [Platform] [Sodium] (hsodium : Sodium.Lawful) {t : Transaction}
    {signer : Signer} {seed : Bytes} (hseed : seed.length = seedLength)
    (hsk : signer.sk = Crypto.getSecretKey seed) {receiver sender : Address}
    (hr : t.receiver = some receiver) (hsender : t.sender = some sender)
    (hkey : sender.publicKey = (Sodium.seedKeypair seed).1) (hchain : Utf8.WellFormed t.chainId) :
    ∃ t' text r, sign t signer = .ok t' ∧ t'.serialize = .ok text ∧
      deserialize default text = (.ok (), r) ∧ verify r = .ok true := by
  obtain ⟨plain, hplain⟩ := serialize_ok (t := t.unsigned) hr hsender ⟨hchain, nofun⟩
  obtain ⟨m, hm⟩ : ∃ m, getSerializedTxMsg t false = .ok m := by
    rw [getSerializedTxMsg_eq, hplain]
    exact ⟨_, rfl⟩
  obtain ⟨text, htext⟩ := serialize_ok (t := t.signed (signer.getSignature m)) hr hsender
    (encodable_signed hchain _)
  have hread : deserialize default text = (.ok (), t.signed (signer.getSignature m)) :=
    deserialize_of_serialize htext fun k hk => view_default
      (isOptional_of_view_none (t := t.signed (signer.getSignature m)) hr hsender hk)
  exact ⟨_, text, _, sign_eq hm signer, htext, hread,
    verify_signed hsodium hseed hsk hsender hkey hm⟩

end MxSdk.Transaction
