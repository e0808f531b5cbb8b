import MxSdk.Transaction.Reading
import MxSdk.Transaction.Writing

/-! A transaction that was serialized is read back as it was, null and empty fields
told apart, by any object whose own optional fields are null. -/

namespace MxSdk.Transaction
open Record

section Platform
variable [Platform] {t : Transaction}

theorem isOptional_of_view_none {receiver sender : Address} (hr : t.receiver = some receiver)
    (hs : t.sender = some sender) {k : TxKey} (h : format.view t k = none) :
    k.isOptional = true := by
  have hget := Option.map_eq_none_iff.mp h
  cases k with
  | nonce | value | gasPrice | gasLimit | chainId | version => cases hget
  | receiver => cases hr.symm.trans hget
  | sender => cases hs.symm.trans hget
  | receiverName | senderName | data | signature | options => rfl

theorem view_default {k : TxKey} (h : k.isOptional = true) : format.view default k = none := by
  cases k with
  | nonce | value | receiver | sender | gasPrice | gasLimit | chainId | version => cases h
  | receiverName | senderName | data | signature | options => rfl

theorem document_members (t : Transaction) : document (.object (members t)) = format.view t :=
  funext (find_members t)

/-- The text of `t` overwrites whatever shows no more optional fields than `t`. -/
theorem deserialize_of_serialize {s : Transaction} {text : Bytes} (h : t.serialize = .ok text)
    (hs : ∀ k, format.view t k = none → format.view s k = none) :
    deserialize s text = (.ok (), t) := by
  obtain ⟨receiver, sender, hr, hsender⟩ := isSome_of_serialize h
  rw [deserialize_ok_iff, given_eq (parse_serialize h), document_members]
  refine Format.exec_view TxKey.mem_assigned (fun k hk => ?_) hs
  exact absent_eq_none_iff.mpr (isOptional_of_view_none hr hsender hk)

theorem deserialize_default {text : Bytes} (h : t.serialize = .ok text) :
    deserialize default text = (.ok (), t) := by
  obtain ⟨receiver, sender, hr, hsender⟩ := isSome_of_serialize h
  exact deserialize_of_serialize h fun k hk => view_default (isOptional_of_view_none hr hsender hk)

end Platform

/-! Transactions and addresses of the tests. -/

def alice : Address where
  publicKey :=
    [0xfd, 0x69, 0x1b, 0xb5, 0xe8, 0x5d, 0x10, 0x26, 0x87, 0xd8, 0x10, 0x79, 0xdf, 0xfc, 0xe8, 0x42,
      0xd4, 0xdc, 0x32, 0x82, 0x76, 0xd2, 0xd4, 0xc6, 0x0d, 0x8f, 0xd1, 0xc3, 0x43, 0x3c, 0x32, 0x93]
  bech32Address := ascii "erd1l453hd0gt5gzdp7czpuall8ggt2dcv5zwmfdf3sd3lguxseux2fsmsgldz"
  reads := by decide +kernel

def bob : Address where
  publicKey :=
    [0xc7, 0x0c, 0xf5, 0x0b, 0x23, 0x83, 0x72, 0xff, 0xfa, 0xf7, 0xb7, 0xc5, 0x72, 0x3b, 0x06, 0xb5,
      0x78, 0x59, 0xd4, 0x24, 0xa2, 0xda, 0x62, 0x1b, 0xcc, 0x1b, 0x2f, 0x31, 0x75, 0x43, 0xaa, 0x36]
  bech32Address := ascii "erd1cux02zersde0l7hhklzhywcxk4u9n4py5tdxyx7vrvhnza2r4gmq4vw35r"
  reads := by decide +kernel

def payment : Transaction where
  nonce := 0
  value := .ofUInt64 0
  receiver := some bob
  sender := some alice
  receiverUserName := none
  senderUserName := none
  gasPrice := 1000000000
  gasLimit := 50000
  data := some (ascii "foo")
  signature := none
  chainId := ascii "1"
  version := 1
  options := none

def paymentTextWith (nonce : Bytes) : Bytes :=
  ascii "\x7b\"nonce\":" ++ nonce ++ ascii ",\"value\":\"0\"," ++
  ascii "\"receiver\":\"erd1cux02zersde0l7hhklzhywcxk4u9n4py5tdxyx7vrvhnza2r4gmq4vw35r\"," ++
  ascii "\"sender\":\"erd1l453hd0gt5gzdp7czpuall8ggt2dcv5zwmfdf3sd3lguxseux2fsmsgldz\"," ++
  ascii "\"gasPrice\":1000000000,\"gasLimit\":50000,\"data\":\"Zm9v\"," ++
  ascii "\"chainID\":\"1\",\"version\":1\x7d"

def paymentText : Bytes := paymentTextWith (ascii "0")

/-- All optional fields are there, one of them empty. -/
def transfer : Transaction where
  nonce := 8
  value := .ofUInt64 10000000000000000000
  receiver := some bob
  sender := some alice
  receiverUserName := some (ascii "Jon")
  senderUserName := some []
  gasPrice := 1000000000
  gasLimit := 50000
  data := some (ascii "foo")
  signature := some (ascii "dummy")
  chainId := ascii "1"
  version := 2
  options := some 2

theorem transfer_encodable : transfer.Encodable :=
  ⟨Utf8.wellFormed_ascii (by decide +kernel), fun s hs => by
    rw [← Option.some.inj hs]
    exact Utf8.wellFormed_ascii (by decide +kernel)⟩

theorem deserialize_serialize [Platform] (t : Transaction) {receiver sender : Address}
    (hr : t.receiver = some receiver) (hs : t.sender = some sender) (ht : t.Encodable) :
    ∃ text r, t.serialize = .ok text ∧ deserialize default text = (.ok (), r) ∧
      r = t ∧ r.serialize = .ok text := by
  obtain ⟨text, htext⟩ := serialize_ok hr hs ht
  refine ⟨text, t, htext, deserialize_of_serialize htext fun k hk => ?_, rfl, htext⟩
  exact view_default (isOptional_of_view_none hr hs hk)

theorem deserialize_serialize_transfer :
    ∃ text r, @serialize .arbitrary transfer = .ok text ∧
      @deserialize .arbitrary default text = (.ok (), r) ∧ r = transfer ∧
      @serialize .arbitrary r = .ok text :=
  @deserialize_serialize .arbitrary transfer bob alice rfl rfl transfer_encodable

end MxSdk.Transaction
