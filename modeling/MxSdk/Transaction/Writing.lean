import MxSdk.Transaction.Format
import MxSdk.Vendor.Json.RoundTrip
import MxSdk.Vendor.Json.Strings

/-! `serialize` dumps an object whose members are what the format shows of the
transaction. All of them are natural numbers and strings, so the text determines the
members, and it exists when the chain id and the signature are UTF-8. -/

namespace MxSdk.Transaction
open Record Utf8

section Set
variable {α : Type} (ty : JsonType α) (key : Bytes)

theorem set_null (a : α) :
    OrderedJson.set .null ty key a = .ok (.object (OrderedMap.assign key (ty.put a) [])) := rfl

theorem set_object (m : List (Bytes × Json)) (a : α) :
    OrderedJson.set (.object m) ty key a = .ok (.object (OrderedMap.assign key (ty.put a) m)) := rfl

theorem setJsonValueIfNotNull_object (m : List (Bytes × Json)) (o : Option α) :
    setJsonValueIfNotNull (.object m) ty key o =
      .ok (.object (OrderedMap.assignOption key (o.map ty.put) m)) := by
  cases o <;> rfl

end Set

variable [Platform] {t : Transaction}

def members (t : Transaction) : List (Bytes × Json) :=
  OrderedMap.members TxKey.text (format.view t) TxKey.written

theorem serialize_eq {receiver sender : Address} (hr : t.receiver = some receiver)
    (hs : t.sender = some sender) : t.serialize = Json.dump (.object (members t)) := by
  have hset : t.serialize = OrderedJson.serialize
      (.object (OrderedMap.assignAll TxKey.text (format.view t) TxKey.written [])) := by
    have hreceiver : format.view t .receiver = some (.string receiver.bech32Address) :=
      congrArg _ hr
    have hsender : format.view t .sender = some (.string sender.bech32Address) := congrArg _ hs
    simp only [serialize, hr, hs, set_null, set_object, setJsonValueIfNotNull_object, bind,
      Except.bind, OrderedMap.assignAll, TxKey.written, List.foldl_cons, List.foldl_nil,
      hreceiver, hsender]
    rfl
  rw [hset, OrderedMap.assignAll_nil TxKey.text_injective TxKey.nodup_written]
  rfl

theorem isSome_of_serialize {text : Bytes} (h : t.serialize = .ok text) :
    ∃ receiver sender, t.receiver = some receiver ∧ t.sender = some sender := by
  cases hr : t.receiver with
  | none => simp [serialize, hr, throw, throwThe, MonadExceptOf.throw] at h
  | some receiver =>
    cases hs : t.sender with
    | none => simp [serialize, hr, hs, throw, throwThe, MonadExceptOf.throw] at h
    | some sender => exact ⟨receiver, sender, rfl, rfl⟩

theorem dump_of_serialize {text : Bytes} (h : t.serialize = .ok text) :
    Json.dump (.object (members t)) = .ok text := by
  obtain ⟨receiver, sender, hr, hs⟩ := isSome_of_serialize h
  rwa [serialize_eq hr hs] at h

theorem view_cases {k : TxKey} {v : Json} (h : format.view t k = some v) :
    (∃ n, v = .numberUnsigned n) ∨ ∃ s, v = .string s := by
  obtain ⟨c, -, rfl⟩ := Option.map_eq_some_iff.mp h
  cases k with
  | nonce | gasPrice | gasLimit | version | options => exact .inl ⟨_, rfl⟩
  | value | receiver | sender | receiverName | senderName | data | signature | chainId =>
    exact .inr ⟨_, rfl⟩

theorem mem_members {e : Bytes × Json} (h : e ∈ members t) :
    ∃ k, e.1 = TxKey.text k ∧ format.view t k = some e.2 := by
  obtain ⟨k, -, he⟩ := List.mem_filterMap.mp h
  obtain ⟨v, hv, rfl⟩ := Option.map_eq_some_iff.mp he
  exact ⟨k, rfl, hv⟩

theorem canonical_members (t : Transaction) : Json.Canonical (.object (members t)) := by
  refine ⟨OrderedMap.nodup_members TxKey.text_injective TxKey.nodup_written, ?_⟩
  refine Json.canonicalMembers_of_forall fun e he => ?_
  obtain ⟨k, -, hv⟩ := mem_members he
  obtain ⟨n, hn⟩ | ⟨s, hs⟩ := view_cases hv
  · rw [hn]
    trivial
  · rw [hs]
    trivial

/-- The two texts a caller chooses freely are UTF-8. -/
structure Encodable (t : Transaction) : Prop where
  chainId : WellFormed t.chainId
  signature : ∀ s, t.signature = some s → WellFormed s

omit [Platform] in
theorem text_ascii (k : TxKey) : ∀ c ∈ k.text, c ≤ 0x7f := by
  have hall : ∀ k ∈ TxKey.written, ∀ c ∈ k.text, c ≤ 0x7f := by decide +kernel
  exact hall k k.mem_written

theorem view_wellFormed (ht : t.Encodable) {k : TxKey} {s : Bytes}
    (h : format.view t k = some (.string s)) : WellFormed s := by
  obtain ⟨c, hget, hput⟩ := Option.map_eq_some_iff.mp h
  cases k with
  | nonce | gasPrice | gasLimit | version | options => cases hput
  | value =>
    cases hput
    exact wellFormed_ascii (BigUInt.value_ascii c)
  | receiver | sender =>
    cases hput
    exact wellFormed_ascii (Address.text_ascii c)
  | receiverName | senderName | data =>
    cases hput
    exact wellFormed_ascii fun _ => Base64.encode_ascii
  | signature =>
    cases hput
    exact ht.signature c hget
  | chainId =>
    cases hput
    cases hget
    exact ht.chainId

theorem allWellFormed_members (ht : t.Encodable) :
    Json.AllWellFormed (Json.strings (.object (members t))) := by
  intro s hs
  obtain ⟨e, he, hs⟩ := Json.mem_stringsOfMembers.mp hs
  obtain ⟨k, hk, hv⟩ := mem_members he
  rcases hs with rfl | hs
  · rw [hk]
    exact wellFormed_ascii (text_ascii k)
  · obtain ⟨n, hn⟩ | ⟨s', hs'⟩ := view_cases hv
    · rw [hn] at hs
      cases hs
    · rw [hs'] at hs hv
      rw [List.mem_singleton.mp hs]
      exact view_wellFormed ht hv

theorem serialize_ok {receiver sender : Address} (hr : t.receiver = some receiver)
    (hs : t.sender = some sender) (ht : t.Encodable) : ∃ text, t.serialize = .ok text := by
  rw [serialize_eq hr hs]
  exact Json.dump_ok (allWellFormed_members ht)

theorem parse_serialize {text : Bytes} (h : t.serialize = .ok text) :
    Json.parse text = some (.object (members t)) :=
  Json.parse_dump (canonical_members t) (dump_of_serialize h)

theorem find_members (t : Transaction) (k : TxKey) :
    Json.find k.text (.object (members t)) = format.view t k := by
  rw [Json.find, members, OrderedMap.find_members TxKey.text_injective, if_pos k.mem_written]

theorem serialize_inj {t' : Transaction} {text : Bytes} (h : t.serialize = .ok text)
    (h' : t'.serialize = .ok text) : t = t' := by
  have hparse := parse_serialize h
  rw [parse_serialize h', Option.some.injEq] at hparse
  refine format.ext_view fun k => ?_
  rw [← find_members, ← find_members, hparse]

/-- The members that are always there make a text longer than a digest. -/
theorem serialize_shape {text : Bytes} (h : t.serialize = .ok text) :
    text.head? = some (chr '\x7b') ∧ 32 < text.length := by
  obtain ⟨receiver, sender, hr, hs⟩ := isSome_of_serialize h
  obtain ⟨rest, hmembers⟩ : ∃ rest, members t =
      (txNonce, .numberUnsigned t.nonce) :: (txValue, .string t.value.value) ::
        (txReceiver, .string receiver.bech32Address) :: (txSender, .string sender.bech32Address) ::
        rest := by
    have hreceiver : format.view t .receiver = some (.string receiver.bech32Address) :=
      congrArg _ hr
    have hsender : format.view t .sender = some (.string sender.bech32Address) := congrArg _ hs
    refine ⟨OrderedMap.members TxKey.text (format.view t) (TxKey.written.drop 4), ?_⟩
    rw [members, TxKey.written, OrderedMap.members_cons, OrderedMap.members_cons,
      OrderedMap.members_cons, OrderedMap.members_cons, hreceiver, hsender]
    rfl
  have hdump := dump_of_serialize h
  rw [hmembers] at hdump
  obtain ⟨hhead, hlen⟩ := Json.dump_object hdump
  have hkeys : Json.keyLength (txNonce, .null) + Json.keyLength (txValue, .null) +
      Json.keyLength (txReceiver, .null) + Json.keyLength (txSender, .null) = 40 := by decide +kernel
  simp only [List.map_cons, List.sum_cons, Json.keyLength] at hlen hkeys
  exact ⟨hhead, by omega⟩

end MxSdk.Transaction
