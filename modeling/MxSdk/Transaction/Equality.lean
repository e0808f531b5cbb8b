import MxSdk.Account.AddressText
import MxSdk.Transaction.Signing

/-! `operator==` compares addresses by their keys, while the text of a transaction holds
the texts of the addresses. Equal transactions are the same up to the letter case of
their addresses. -/

namespace MxSdk.Transaction

/-- Both null, or both spelled in the same letter case. -/
def SameCase (a b : Option Address) : Prop := a.map Address.isUpperCase = b.map Address.isUpperCase

theorem pointersHaveSameValue_beq {α : Type} [BEq α] [LawfulBEq α] {v1 v2 : Option α} :
    pointersHaveSameValue (· == ·) v1 v2 = true ↔ v1 = v2 := by
  cases v1 <;> cases v2 <;> simp [pointersHaveSameValue]

theorem pointersHaveSameValue_self (v : Option Address) :
    pointersHaveSameValue Address.equals v v = true := by
  cases v <;> simp [pointersHaveSameValue, Address.equals]

theorem eq_of_sameCase {v1 v2 : Option Address}
    (h : pointersHaveSameValue Address.equals v1 v2 = true) (hcase : SameCase v1 v2) : v1 = v2 := by
  cases v1 with
  | none =>
    cases v2 with
    | none => rfl
    | some b => cases h
  | some a =>
    cases v2 with
    | none => cases h
    | some b =>
      have hkey : a.publicKey = b.publicKey := of_decide_eq_true h
      exact congrArg some (Address.ext_text
        (Address.text_eq_of_sameCase hkey (Option.some.inj hcase)))

theorem equals_self (t : Transaction) : t.equals t = true := by
  simp only [equals, Bool.and_eq_true, beq_self_eq_true, BigUInt.equals_iff,
    pointersHaveSameValue_beq, pointersHaveSameValue_self, and_self]

theorem eq_of_equals {t t' : Transaction} (h : t.equals t' = true)
    (hsender : SameCase t.sender t'.sender) (hreceiver : SameCase t.receiver t'.receiver) :
    t = t' := by
  simp only [equals, Bool.and_eq_true, beq_iff_eq, BigUInt.equals_iff,
    pointersHaveSameValue_beq] at h
  obtain ⟨⟨⟨⟨⟨⟨⟨⟨⟨⟨⟨⟨hnonce, hvalue⟩, hs⟩, hr⟩, hsenderName⟩, hreceiverName⟩, hgasPrice⟩, hgasLimit⟩,
    hdata⟩, hsignature⟩, hchainId⟩, hversion⟩, hoptions⟩ := h
  cases t
  cases t'
  simp only [mk.injEq]
  exact ⟨hnonce, hvalue, eq_of_sameCase hr hreceiver, eq_of_sameCase hs hsender, hreceiverName,
    hsenderName, hgasPrice, hgasLimit, hdata, hsignature, hchainId, hversion, hoptions⟩

/-- Equal transactions whose addresses are in the same letter case have one text, and
one message to sign. -/
theorem serialize_eq_of_equals [Platform] {t t' : Transaction} (h : t.equals t' = true)
    (hsender : SameCase t.sender t'.sender) (hreceiver : SameCase t.receiver t'.receiver) :
    t.serialize = t'.serialize ∧ getSerializedTxMsg t false = getSerializedTxMsg t' false := by
  rw [eq_of_equals h hsender hreceiver]
  exact ⟨rfl, rfl⟩

theorem serialize_eq_of_equals_payment :
    @serialize .arbitrary payment = @serialize .arbitrary payment ∧
      @getSerializedTxMsg .arbitrary payment false = @getSerializedTxMsg .arbitrary payment false :=
  @serialize_eq_of_equals .arbitrary payment payment (equals_self payment) rfl rfl

def aliceUpper : Address where
  publicKey := alice.publicKey
  bech32Address := ascii "ERD1L453HD0GT5GZDP7CZPUALL8GGT2DCV5ZWMFDF3SD3LGUXSEUX2FSMSGLDZ"
  reads := by decide +kernel

theorem serialize_eq_of_equals_fails :
    ¬ ∀ (t t' : Transaction) (text text' : Bytes), t.equals t' = true →
      @serialize .arbitrary t = .ok text → @serialize .arbitrary t' = .ok text' → text = text' := by
  intro h
  have hencodable : { payment with sender := some aliceUpper }.Encodable :=
    ⟨Utf8.wellFormed_ascii (by decide +kernel), nofun⟩
  obtain ⟨text, htext⟩ := @serialize_ok .arbitrary _ bob aliceUpper rfl rfl hencodable
  have heq := h _ _ _ _ (by decide +kernel) serialize_payment htext
  have hsame := @serialize_inj .arbitrary _ _ _ serialize_payment (heq ▸ htext)
  exact absurd (congrArg sender hsame) (by decide +kernel)

end MxSdk.Transaction
