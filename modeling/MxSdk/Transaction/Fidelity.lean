import MxSdk.Transaction.RoundTrip
import MxSdk.Vendor.Json.Conversions

/-! What an accepted text becomes when it is serialized again. Strings are kept. A
number is kept when it is a natural number of the width of its field, and base64 when
it is what the encoder writes; other values are accepted too, and altered. -/

namespace MxSdk.Transaction
open Record Utf8

/-- One value, or two notations of one number. -/
def SameValue (v v' : Json) : Prop := v = v' ∨ ∃ q : ℚ, v.toRat = some q ∧ v'.toRat = some q

def Faithful : TxKey → Json → Prop
  | .nonce, v | .gasPrice, v | .gasLimit, v | .version, v => v.IsNatural 64
  | .options, v => v.IsNatural 32
  | .data, v | .receiverName, v | .senderName, v => ∃ b, v = .string (Base64.encode b)
  | _, _ => True

theorem sameValue_number {v : Json} {n : UInt64} :
    SameValue v (.numberUnsigned n) ↔ v.toRat = some (n.toNat : ℚ) := by
  constructor
  · rintro (rfl | ⟨q, hv, hq⟩)
    · rfl
    · rw [hv, ← hq]
      rfl
  · exact fun hv => .inr ⟨_, hv, rfl⟩

theorem sameValue_string {v : Json} {s : Bytes} : SameValue v (.string s) ↔ v = .string s := by
  constructor
  · rintro (rfl | ⟨q, -, hq⟩)
    · rfl
    · cases hq
  · exact .inl

theorem readAt_ok {α : Type} {ty : JsonType α} {key : Bytes} {v : Json} {a : α}
    (h : readAt ty key v = .ok a) : ty.get v = some a := by
  rw [readAt] at h
  cases hget : ty.get v with
  | none =>
    rw [hget] at h
    cases h
  | some b =>
    rw [hget] at h
    rw [Except.ok.inj h]

theorem eq_of_getString {v : Json} {s : Bytes} (h : v.getString = some s) : v = .string s := by
  cases v with
  | string t => rw [← Option.some.inj h]
  | null | boolean | numberUnsigned | numberInteger | numberFloat | array | object => cases h

theorem sameValue_text {β : Type} {key : Bytes} {make : Bytes → Except Exception β}
    (text : β → Bytes) (hmake : ∀ {s b}, make s = .ok b → text b = s) {v : Json} {b : β}
    (h : readAt .string key v >>= make = .ok b) : SameValue v (.string (text b)) := by
  obtain ⟨s, hs, hb⟩ := bind_eq_ok h
  rw [hmake hb]
  exact .inl (eq_of_getString (readAt_ok hs))

theorem sameValue_bytes {key : Bytes} {v : Json} {b : Bytes}
    (h : readAt .bytes key v >>= Except.ok = .ok b) :
    SameValue v (.string (Base64.encode b)) ↔ ∃ b', v = .string (Base64.encode b') := by
  obtain ⟨b, hb, ⟨⟩⟩ := bind_eq_ok h
  obtain ⟨s, hs, rfl⟩ := Option.map_eq_some_iff.mp (readAt_ok hb)
  obtain rfl := eq_of_getString hs
  rw [sameValue_string]
  constructor
  · exact fun heq => ⟨_, heq⟩
  · rintro ⟨b', heq⟩
    cases heq
    rw [Base64.decode_encode]

section Platform
variable [Platform]

theorem sameValue_uint64 {key : Bytes} {v : Json} {n : UInt64}
    (h : readAt .uint64 key v >>= Except.ok = .ok n) :
    SameValue v (.numberUnsigned n) ↔ v.IsNatural 64 := by
  obtain ⟨n, hn, ⟨⟩⟩ := bind_eq_ok h
  rw [sameValue_number, Json.getUInt64_exact_iff (readAt_ok hn)]

theorem sameValue_uint32 {key : Bytes} {v : Json} {n : UInt32}
    (h : readAt .uint32 key v >>= Except.ok = .ok n) :
    SameValue v (.numberUnsigned n.toUInt64) ↔ v.IsNatural 32 := by
  obtain ⟨n, hn, ⟨⟩⟩ := bind_eq_ok h
  rw [sameValue_number, UInt32.toNat_toUInt64, Json.getUInt32_exact_iff (readAt_ok hn)]

theorem sameValue_iff {k : TxKey} {v : Json} {c : (format.field k).Content}
    (h : (format.field k).read v = .ok c) :
    SameValue v ((format.field k).put c) ↔ Faithful k v := by
  cases k with
  | nonce | gasPrice | gasLimit | version => exact sameValue_uint64 h
  | options => exact sameValue_uint32 h
  | receiverName | senderName | data => exact sameValue_bytes h
  | value => exact iff_of_true (sameValue_text BigUInt.value BigUInt.ofString_eq_ok_iff.mp h) trivial
  | receiver | sender =>
    exact iff_of_true
      (sameValue_text Address.bech32Address Address.ofBech32Address_eq_ok_iff.mp h) trivial
  | chainId | signature =>
    exact iff_of_true (sameValue_text id (fun hs => (Except.ok.inj hs).symm) h) trivial

omit [Platform] in
theorem given_wellFormed {s x : Bytes} {k : TxKey} (h : given s k = some (.string x)) :
    WellFormed x := by
  obtain ⟨json, hparse, hfind⟩ := Option.bind_eq_some_iff.mp h
  cases json with
  | object m =>
    have hmem := OrderedMap.mem_of_find hfind
    exact Json.parse_wellFormed hparse x
      (Json.mem_stringsOfMembers.mpr ⟨_, hmem, .inr List.mem_cons_self⟩)
  | null | boolean | numberUnsigned | numberInteger | numberFloat | string | array => cases hfind

variable {t r : Transaction} {s : Bytes} {k : TxKey} {v : Json}

theorem view_of_given (h : deserialize t s = (.ok (), r)) (hk : given s k = some v) :
    ∃ c, (format.field k).read v = .ok c ∧ format.view r k = some ((format.field k).put c) := by
  have hread := deserialize_fst_iff.mp (congrArg Prod.fst h) k
  rw [hk, Option.elim_some] at hread
  obtain ⟨c, hc⟩ := hread
  refine ⟨c, hc, ?_⟩
  rw [view_deserialize h, hk, Option.elim_some, Field.kept, hc]
  rfl

theorem view_of_absent (h : deserialize default s = (.ok (), r)) (hk : given s k = none) :
    format.view r k = none := by
  have hread := deserialize_fst_iff.mp (congrArg Prod.fst h) k
  rw [hk, Option.elim_none] at hread
  rw [view_deserialize h, hk, Option.elim_none]
  exact view_default hread

theorem given_of_view (h : deserialize default s = (.ok (), r)) (hk : ∀ v, Faithful k v) {x : Bytes}
    (hview : format.view r k = some (.string x)) : given s k = some (.string x) := by
  cases hgiven : given s k with
  | none =>
    rw [view_of_absent h hgiven] at hview
    cases hview
  | some v =>
    obtain ⟨c, hc, hput⟩ := view_of_given h hgiven
    have hsame := (sameValue_iff hc).mpr (hk v)
    rw [hput, Option.some.injEq] at hview
    rw [hview] at hsame
    rw [sameValue_string.mp hsame]

theorem serialize_of_deserialize (h : deserialize default s = (.ok (), r)) :
    ∃ text, r.serialize = .ok text := by
  have hpresent (k : TxKey) (hk : k.isOptional = false) : ∃ c, (format.field k).get r = some c := by
    have hread := deserialize_fst_iff.mp (congrArg Prod.fst h) k
    cases hgiven : given s k with
    | none =>
      rw [hgiven, Option.elim_none, hk] at hread
      cases hread
    | some v =>
      obtain ⟨c, -, hview⟩ := view_of_given h hgiven
      obtain ⟨c', hget, -⟩ := Option.map_eq_some_iff.mp hview
      exact ⟨c', hget⟩
  obtain ⟨receiver, hr⟩ := hpresent .receiver rfl
  obtain ⟨sender, hs⟩ := hpresent .sender rfl
  refine serialize_ok hr hs ⟨?_, fun x hx => ?_⟩
  · exact given_wellFormed (given_of_view h (k := .chainId) (fun _ => trivial) rfl)
  · exact given_wellFormed (given_of_view h (k := .signature) (fun _ => trivial) (congrArg _ hx))

theorem given_serialize {text : Bytes} (h : t.serialize = .ok text) :
    given text = format.view t := by
  rw [given_eq (parse_serialize h), document_members]

end Platform

/-- An accepted text comes back with the same values exactly when its numbers fit their
fields and its base64 is canonical. -/
theorem deserialize_faithful_iff [Platform] (s : Bytes) :
    ((∀ r, deserialize default s = (.ok (), r) → ∃ text, r.serialize = .ok text ∧
        ∀ k, Option.Rel SameValue (given s k) (given text k)) ∧
      ∀ e r, deserialize default s = (.error e, r) → e.IsInvalidArgument) ↔
      (Readable s → ∀ k v, given s k = some v → Faithful k v) := by
  constructor
  · rintro ⟨hsame, -⟩ hs k v hk
    obtain ⟨r, hr⟩ := deserialize_of_readable hs default
    obtain ⟨text, htext, hrel⟩ := hsame r hr
    obtain ⟨c, hc, hview⟩ := view_of_given hr hk
    have hkey := hrel k
    rw [given_serialize htext, hk, hview] at hkey
    cases hkey with
    | some hvalue => exact (sameValue_iff hc).mp hvalue
  · intro h
    refine ⟨fun r hr => ?_, fun e r he => deserialize_error_invalid he⟩
    obtain ⟨text, htext⟩ := serialize_of_deserialize hr
    refine ⟨text, htext, fun k => ?_⟩
    rw [given_serialize htext]
    cases hk : given s k with
    | none =>
      rw [view_of_absent hr hk]
      exact .none
    | some v =>
      obtain ⟨c, hc, hview⟩ := view_of_given hr hk
      rw [hview]
      exact .some ((sameValue_iff hc).mpr
        (h (deserialize_fst_iff.mp (congrArg Prod.fst hr)) k v hk))

def negativeText : Bytes := paymentTextWith (ascii "-1")

set_option maxRecDepth 100000 in
theorem deserialize_faithful_fails :
    ¬ ∀ s r, @deserialize .arbitrary default s = (.ok (), r) →
      ∃ text, @serialize .arbitrary r = .ok text ∧
        ∀ k, Option.Rel SameValue (given s k) (given text k) := by
  intro h
  have hrun : (@deserialize .arbitrary default negativeText).1 = .ok () ∧
      (given negativeText .nonce).bind Json.toRat = some (-1) := by decide +kernel
  obtain ⟨text, htext, hrel⟩ := h negativeText _ (Prod.ext hrun.1 rfl)
  obtain ⟨v, hv, hq⟩ := Option.bind_eq_some_iff.mp hrun.2
  have hnonce := hrel .nonce
  rw [@given_serialize .arbitrary _ _ htext, hv] at hnonce
  cases hnonce with
  | some hsame =>
    have hnat := sameValue_number.mp hsame
    rw [hq, Option.some.injEq] at hnat
    have hnonneg : (0 : ℚ) ≤ -1 := hnat ▸ Nat.cast_nonneg _
    exact absurd hnonneg (by decide)

end MxSdk.Transaction
