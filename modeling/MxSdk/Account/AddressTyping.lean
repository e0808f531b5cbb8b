import MxSdk.Account.Address

/-! One wrong or missing character in the text of a key. The checksum finds a character of
the payload that was replaced; the letter case finds one that was only raised; a missing
one leaves seven bits over. -/

namespace MxSdk.Address
open Bits

/-- A text with one character replaced, or without one character. -/
inductive Typo : Bytes → Bytes → Prop
  | replace {s t : Bytes} {b c : UInt8} : c ≠ b → Typo (s ++ b :: t) (s ++ c :: t)
  | delete {s t : Bytes} {b : UInt8} : Typo (s ++ b :: t) (s ++ t)

theorem ofPublicKey_text {pk : Bytes} (h : pk.length = publicKeyLength) :
    ∃ a g, ofPublicKey pk = .ok a ∧ Words 5 g ∧ g.length = 52 ∧
      a.bech32Address = Bech32.encode hrp g := by
  obtain ⟨a, ha, hkey, hplain⟩ := ofPublicKey_ok h
  obtain ⟨g, hg, hpk⟩ := reads_iff.mp a.reads
  obtain ⟨k, hk, hlen⟩ := length_of_words hpk
  rw [hkey, h, publicKeyLength] at hlen
  exact ⟨a, g, ha, hg.words, by omega, hplain.lowerCase.symm.trans hg.text⟩

theorem lower_remains {values s t : Bytes} {b : UInt8}
    (h : Bech32.encode hrp values = s ++ b :: t) :
    ∃ x, Bech32.isLower x = true ∧ (x ∈ s ∨ x ∈ t) := by
  have hbegin : ∃ rest, Bech32.encode hrp values = chr 'e' :: chr 'r' :: rest := ⟨_, rfl⟩
  obtain ⟨rest, hrest⟩ := hbegin
  rw [hrest] at h
  cases s with
  | nil =>
    obtain ⟨-, htail⟩ := List.cons.inj h
    exact ⟨chr 'r', by decide, .inr (by rw [← htail]; exact List.mem_cons_self)⟩
  | cons x s =>
    obtain ⟨rfl, -⟩ := List.cons.inj h
    exact ⟨chr 'e', by decide, .inl List.mem_cons_self⟩

theorem not_spelling_replace {g g' s t : Bytes} {b c : UInt8} (hw : Words 5 g)
    (htext : Bech32.encode hrp g = s ++ b :: t) (hc : c ≠ b) :
    ¬ Bech32.Spelling hrp g' (s ++ c :: t) := by
  intro h
  have hplain := Bech32.encode_plain hrp_plain hw
  rw [htext] at hplain
  have hlower := h.text
  rw [List.map_append, List.map_cons,
    Bech32.Plain.lowerCase fun x hx => hplain x (List.mem_append_left _ hx),
    Bech32.Plain.lowerCase fun x hx =>
      hplain x (List.mem_append_right _ (List.mem_cons_of_mem b hx))]
    at hlower
  have hsame : b = Bech32.lowerCase c := Bech32.encode_single hw h.words htext hlower.symm
  -- only the letter case of the character differs
  have hupper : Bech32.isUpper c = true := by
    by_contra hnot
    rw [Bech32.lowerCase, if_neg hnot] at hsame
    exact hc hsame.symm
  obtain ⟨x, hx, hmem⟩ := lower_remains htext
  have hmem' : x ∈ s ++ c :: t := by
    rcases hmem with hmem | hmem
    · exact List.mem_append_left _ hmem
    · exact List.mem_append_right _ (List.mem_cons_of_mem c hmem)
  have hone := h.oneCase
  rw [Bech32.OneCase, List.any_eq_true.mpr ⟨x, hmem', hx⟩,
    List.any_eq_true.mpr ⟨c, List.mem_append_right _ List.mem_cons_self, hupper⟩] at hone
  cases hone

/-- Fifty-one words are thirty-one bytes and seven bits. -/
theorem not_regular_delete {g s t : Bytes} {pk : Bytes} (hlength : (s ++ t).length = 61)
    (h : Bech32.Spelling hrp g (s ++ t)) : convertBits g 5 8 false ≠ .ok pk := by
  intro hpk
  obtain ⟨k, hk, hlen⟩ := length_of_words hpk
  have htext := h.length
  rw [hlength, show hrp.length = 3 from rfl] at htext
  omega

theorem typo_throws {pk : Bytes} (h : pk.length = publicKeyLength) : ∃ a, ofPublicKey pk = .ok a ∧
    ∀ text, Typo a.bech32Address text →
      ∃ e, ofBech32Address text = .error e ∧ e.IsInvalidArgument := by
  obtain ⟨a, g, ha, hw, hg, htext⟩ := ofPublicKey_text h
  refine ⟨a, ha, fun text htypo => ?_⟩
  cases hread : ofBech32Address text with
  | error e => exact ⟨e, rfl, ofBech32Address_error hread⟩
  | ok a' =>
    exfalso
    obtain ⟨g', hspelling, hpk⟩ := reads_iff.mp a'.reads
    rw [ofBech32Address_eq_ok_iff.mp hread] at hspelling
    have hlength := Bech32.length_encode hrp g
    rw [← htext, hg, show hrp.length = 3 from rfl] at hlength
    obtain ⟨original, horiginal⟩ : ∃ s, s = a.bech32Address := ⟨_, rfl⟩
    rw [← horiginal] at htypo hlength htext
    cases htypo with
    | replace hc => exact not_spelling_replace hw htext.symm hc hspelling
    | delete =>
      refine not_regular_delete ?_ hspelling hpk
      simp only [List.length_append, List.length_cons] at hlength ⊢
      omega

theorem typo_throws_zeros : ∃ a, ofPublicKey (List.replicate 32 0) = .ok a ∧
    ∀ text, Typo a.bech32Address text →
      ∃ e, ofBech32Address text = .error e ∧ e.IsInvalidArgument :=
  typo_throws List.length_replicate

end MxSdk.Address
