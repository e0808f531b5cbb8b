import MxSdk.Account.Address
import MxSdk.Vendor.Bech32Distance

/-! Several wrong characters in the text of a key. Up to four of them do not give the text
of another key. -/

namespace MxSdk.Address
open Bits ErrorPattern

theorem publicKey_eq_of_close {a b : Address}
    (hlen : a.bech32Address.length = b.bech32Address.length)
    (hshort : a.bech32Address.length ≤ 62)
    (hclose : mismatches a.bech32Address b.bech32Address ≤ 4) :
    a.bech32Address.map Bech32.lowerCase = b.bech32Address.map Bech32.lowerCase ∧
      a.publicKey = b.publicKey := by
  obtain ⟨g, hg, hpk⟩ := reads_iff.mp a.reads
  obtain ⟨g', hg', hpk'⟩ := reads_iff.mp b.reads
  have htext := hg.length
  have htext' := hg'.length
  rw [show hrp.length = 3 from rfl] at htext htext'
  have hlower := (mismatches_map_le Bech32.lowerCase _ _).trans hclose
  rw [hg.text, hg'.text] at hlower
  have heq : g = g' := Bech32.encode_few hg.words hg'.words (by omega) (by omega) hlower
  subst heq
  rw [hpk] at hpk'
  exact ⟨hg.text.trans hg'.text.symm, Except.ok.inj hpk'⟩

theorem few_errors {pk : Bytes} (h : pk.length = publicKeyLength) :
    ∃ a, ofPublicKey pk = .ok a ∧ ∀ s : Bytes, s.length = a.bech32Address.length →
      mismatches a.bech32Address s ≤ 4 →
        (s.map Bech32.lowerCase = a.bech32Address ∧
          ∃ b, ofBech32Address s = .ok b ∧ b.publicKey = pk) ∨
        ∃ e, ofBech32Address s = .error e ∧ e.IsInvalidArgument := by
  obtain ⟨a, ha, hkey, hplain⟩ := ofPublicKey_ok h
  refine ⟨a, ha, fun s hlen hclose => ?_⟩
  have hlength : a.bech32Address.length = 62 := by
    obtain ⟨g, hg, hpk⟩ := reads_iff.mp a.reads
    obtain ⟨k, hk, hbits⟩ := length_of_words hpk
    have htext := hg.length
    rw [show hrp.length = 3 from rfl] at htext
    rw [hkey, h, publicKeyLength] at hbits
    omega
  cases hread : ofBech32Address s with
  | error e => exact .inr ⟨e, rfl, ofBech32Address_error hread⟩
  | ok b =>
    have hs : b.bech32Address = s := ofBech32Address_eq_ok_iff.mp hread
    rw [← hs] at hlen hclose ⊢
    obtain ⟨hlower, hsame⟩ := publicKey_eq_of_close hlen.symm hlength.le hclose
    rw [hplain.lowerCase] at hlower
    exact .inl ⟨hlower.symm, b, rfl, hsame.symm.trans hkey⟩

theorem few_errors_zeros :
    ∃ a, ofPublicKey (List.replicate 32 0) = .ok a ∧
      ∀ s : Bytes, s.length = a.bech32Address.length → mismatches a.bech32Address s ≤ 4 →
        (s.map Bech32.lowerCase = a.bech32Address ∧
          ∃ b, ofBech32Address s = .ok b ∧ b.publicKey = List.replicate 32 0) ∨
        ∃ e, ofBech32Address s = .error e ∧ e.IsInvalidArgument :=
  few_errors List.length_replicate

end MxSdk.Address
