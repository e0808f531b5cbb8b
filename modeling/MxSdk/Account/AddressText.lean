import MxSdk.Account.Address

/-! What an address text says about its key. Every obtainable address reads back
as itself. The key fixes the text up to the letter case; it is a full public key
when the text has the full length, which the string constructor does not check. -/

namespace MxSdk.Address
open Bits

/-- Addresses a program can obtain when each text it parses satisfies `P`. -/
inductive Obtained (P : Bytes → Prop) : Address → Prop
  | ofPublicKey {pk : Bytes} {a : Address} : ofPublicKey pk = .ok a → Obtained P a
  | ofBech32Address {s : Bytes} {a : Address} : P s → ofBech32Address s = .ok a → Obtained P a
  | copy {a : Address} : Obtained P a → Obtained P ⟨a.publicKey, a.bech32Address, a.reads⟩
  | assign {a b : Address} : Obtained P a → Obtained P b → Obtained P (a.assign b)

theorem length_bech32Address (a : Address) :
    ∃ k < 5, 5 * a.bech32Address.length = 8 * a.publicKey.length + k + 50 := by
  obtain ⟨g, hg, hpk⟩ := reads_iff.mp a.reads
  obtain ⟨k, hk, hlen⟩ := length_of_words hpk
  have htext := hg.length
  rw [show hrp.length = 3 from rfl] at htext
  exact ⟨k, hk, by omega⟩

theorem length_publicKey_iff (a : Address) :
    a.publicKey.length = publicKeyLength ↔ a.bech32Address.length = 62 := by
  obtain ⟨k, hk, hlen⟩ := length_bech32Address a
  rw [publicKeyLength]
  omega

theorem length_publicKey_of_parsed {s : Bytes} {a : Address} (h : ofBech32Address s = .ok a) :
    a.publicKey.length = publicKeyLength ↔ s.length = 62 := by
  rw [length_publicKey_iff, ofBech32Address_eq_ok_iff.mp h]

/-- The string constructor accepts keys of other lengths than the byte
constructor. Where every parsed text has 62 characters, all keys are full. -/
theorem publicKey_length (a : Address) :
    (∀ s, ofBech32Address s = .ok a → (a.publicKey.length = publicKeyLength ↔ s.length = 62)) ∧
      (Obtained (fun s => s.length = 62) a → a.publicKey.length = publicKeyLength) := by
  refine ⟨fun s => length_publicKey_of_parsed, fun h => ?_⟩
  induction h with
  | ofPublicKey h => exact ofPublicKey_length h
  | ofBech32Address hs h => exact (length_publicKey_of_parsed h).mpr hs
  | copy _ ih => exact ih
  | assign _ _ _ ih => exact ih

/-- A text of twenty key bytes. -/
def shortText : Bytes := ascii "erd1qurswpc8qurswpc8qurswpc8qurswpc8trcrcj"

theorem shortText_reads : Reads shortText (List.replicate 20 7) := by decide +kernel

def shortAddress : Address := ⟨List.replicate 20 7, shortText, shortText_reads⟩

theorem publicKey_length_fails :
    ¬ ∀ s a, ofBech32Address s = .ok a → a.publicKey.length = publicKeyLength := by
  intro h
  have hlen := h shortText _ (ofBech32Address_text shortAddress)
  simp [shortAddress, publicKeyLength] at hlen

theorem publicKey_length_zeros :
    (∃ a, ofBech32Address shortText = .ok a ∧
        ¬ a.publicKey.length = publicKeyLength ∧ shortText.length ≠ 62) ∧
      ∃ a, ofPublicKey (List.replicate 32 0) = .ok a ∧ a.publicKey.length = publicKeyLength := by
  obtain ⟨a, ha, -, -⟩ := ofPublicKey_ok (List.length_replicate (n := 32) (a := (0 : UInt8)))
  have hshort : ofBech32Address shortText = .ok shortAddress := ofBech32Address_text shortAddress
  have hne : shortText.length ≠ 62 := by decide +kernel
  exact ⟨⟨_, hshort, fun h => hne (((publicKey_length shortAddress).1 _ hshort).mp h), hne⟩,
    a, ha, (publicKey_length a).2 (.ofPublicKey ha)⟩

theorem text_roundTrip :
    (∀ pk : Bytes, pk.length = publicKeyLength → ∃ a a', ofPublicKey pk = .ok a ∧
        ofBech32Address a.bech32Address = .ok a' ∧ a'.publicKey = pk ∧
        a'.bech32Address = a.bech32Address) ∧
      ∀ a, Obtained (fun _ => True) a →
        ∃ a', ofBech32Address a.bech32Address = .ok a' ∧ a'.equals a = true := by
  constructor
  · intro pk hpk
    obtain ⟨a, ha, hkey, -⟩ := ofPublicKey_ok hpk
    exact ⟨a, a, ha, ofBech32Address_text a, hkey, rfl⟩
  · intro a _
    exact ⟨a, ofBech32Address_text a, by simp [equals]⟩

theorem text_roundTrip_zeros :
    (∃ a a', ofPublicKey (List.replicate 32 0) = .ok a ∧
        ofBech32Address a.bech32Address = .ok a' ∧ a'.publicKey = List.replicate 32 0 ∧
        a'.bech32Address = a.bech32Address) ∧
      ∃ a', ofBech32Address shortAddress.bech32Address = .ok a' ∧ a'.equals shortAddress = true :=
  ⟨text_roundTrip.1 _ rfl,
    text_roundTrip.2 _ (.ofBech32Address trivial (ofBech32Address_text shortAddress))⟩

def upperCase (c : UInt8) : UInt8 := if Bech32.isLower c then c - 97 + 65 else c

theorem upperCase_lowerCase {c : UInt8} (h : Bech32.isLower c = false) :
    upperCase (Bech32.lowerCase c) = c := by
  have all : ∀ c, Bech32.isLower c = false → upperCase (Bech32.lowerCase c) = c :=
    forall_byte (by decide +kernel)
  exact all c h

def isUpperCase (a : Address) : Bool := a.bech32Address.any Bech32.isUpper

theorem lowerCase_text_eq {a b : Address} (h : a.publicKey = b.publicKey) :
    a.bech32Address.map Bech32.lowerCase = b.bech32Address.map Bech32.lowerCase := by
  obtain ⟨g, hg, hpk⟩ := reads_iff.mp a.reads
  obtain ⟨g', hg', hpk'⟩ := reads_iff.mp b.reads
  rw [h] at hpk
  rw [hg.text, hg'.text, convertBits_words_inj hpk hpk']

theorem map_lowerCase_of_not_upper {s : Bytes} (h : s.any Bech32.isUpper = false) :
    s.map Bech32.lowerCase = s := by
  conv_rhs => rw [← List.map_id s]
  refine List.map_congr_left fun c hc => ?_
  have hup := List.any_eq_false.mp h c hc
  simp [Bech32.lowerCase, hup]

theorem map_upperCase_of_not_lower {s : Bytes} (h : s.any Bech32.isLower = false) :
    (s.map Bech32.lowerCase).map upperCase = s := by
  rw [List.map_map]
  conv_rhs => rw [← List.map_id s]
  refine List.map_congr_left fun c hc => ?_
  have hlow := List.any_eq_false.mp h c hc
  exact upperCase_lowerCase (by simpa using hlow)

theorem text_eq_of_sameCase {a b : Address} (h : a.publicKey = b.publicKey)
    (hcase : a.isUpperCase = b.isUpperCase) : a.bech32Address = b.bech32Address := by
  have htext := lowerCase_text_eq h
  obtain ⟨g, hg, -⟩ := reads_iff.mp a.reads
  obtain ⟨g', hg', -⟩ := reads_iff.mp b.reads
  cases hup : a.isUpperCase with
  | false =>
    rwa [map_lowerCase_of_not_upper hup, map_lowerCase_of_not_upper (hcase.symm.trans hup)] at htext
  | true =>
    have hlow {t g : Bytes} (ht : Bech32.Spelling hrp g t) (hu : t.any Bech32.isUpper = true) :
        t.any Bech32.isLower = false := by
      have hone := ht.oneCase
      rwa [Bech32.OneCase, hu, Bool.and_true] at hone
    rw [← map_upperCase_of_not_lower (hlow hg hup), htext,
      map_upperCase_of_not_lower (hlow hg' (hcase.symm.trans hup))]

end MxSdk.Address
