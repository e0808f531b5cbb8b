import MxSdk.Utils.Hex

/-! The functions of hex.cpp against each other. The loop of `hexToBytes` counts in an
`unsigned int`, whatever the length, so there are texts that it never gets to the end of.
Where it does, the three functions agree. -/

namespace MxSdk.Hex

/-! The loop of `hexToBytes`. -/

/-- The loop from index `i`, `none` where that takes more turns than given. -/
def hexToBytesLoop (hex : Bytes) : Nat → UInt32 → Bytes → Option Bytes
  | 0, _, _ => none
  | turns + 1, i, ret =>
    if i.toNat < hex.length then
      hexToBytesLoop hex turns (i + 2) (ret ++ [UInt8.ofInt (strtol ((hex.drop i.toNat).take 2))])
    else some ret

/-- `hexToBytes(hex)` ends, with this result. -/
def Returns (hex b : Bytes) : Prop := ∃ turns, hexToBytesLoop hex turns 0 [] = some b

theorem hexToBytesLoop_det {hex : Bytes} {turns turns' : Nat} {i : UInt32} {ret b b' : Bytes}
    (h : hexToBytesLoop hex turns i ret = some b) (h' : hexToBytesLoop hex turns' i ret = some b') :
    b = b' := by
  induction turns generalizing turns' i ret with
  | zero => cases h
  | succ turns ih =>
    cases turns' with
    | zero => cases h'
    | succ turns' =>
      rw [hexToBytesLoop] at h h'
      split at h
      · rename_i hlt
        rw [if_pos hlt] at h'
        exact ih h h'
      · rename_i hge
        rw [if_neg hge] at h'
        exact Option.some.inj (h.symm.trans h')

theorem toNat_next {i : UInt32} (h : i.toNat + 2 < 2 ^ 32) : (i + 2).toNat = i.toNat + 2 := by
  rw [UInt32.toNat_add]
  exact Nat.mod_eq_of_lt h

theorem hexToBytesLoop_ends {hex : Bytes} (hlen : hex.length + 1 < 2 ^ 32) (s : Bytes) :
    ∀ (i : UInt32) (ret : Bytes), i.toNat + s.length = hex.length → hex.drop i.toNat = s →
      ∃ turns, hexToBytesLoop hex turns i ret = some (ret ++ hexToBytes s) := by
  induction s using hexToBytes.induct with
  | case1 c d rest ih =>
    intro i ret hi hdrop
    simp only [List.length_cons] at hi
    have hnext := toNat_next (i := i) (by omega)
    obtain ⟨turns, hturns⟩ := ih (i + 2) (ret ++ [UInt8.ofInt (strtol [c, d])])
      (by rw [hnext]; omega) (by rw [hnext, ← List.drop_drop, hdrop]; rfl)
    refine ⟨turns + 1, ?_⟩
    rw [hexToBytesLoop, if_pos (by omega), hdrop, show (c :: d :: rest).take 2 = [c, d] from rfl,
      hturns, hexToBytes, List.append_assoc, List.singleton_append]
  | case2 c =>
    intro i ret hi hdrop
    simp only [List.length_cons, List.length_nil] at hi
    have hnext := toNat_next (i := i) (by omega)
    refine ⟨2, ?_⟩
    rw [hexToBytesLoop, if_pos (by omega), hdrop, hexToBytesLoop, if_neg (by rw [hnext]; omega)]
    rfl
  | case3 =>
    intro i ret hi hdrop
    refine ⟨1, ?_⟩
    rw [hexToBytesLoop, if_neg (by rw [← hi]; simp), hexToBytes, List.append_nil]

/-- No even index is at the end of a longer text, and the index stays even when it wraps. -/
theorem hexToBytesLoop_stuck {hex : Bytes} (hlen : 2 ^ 32 ≤ hex.length + 1) (turns : Nat)
    {i : UInt32} (hi : i.toNat % 2 = 0) (ret : Bytes) : hexToBytesLoop hex turns i ret = none := by
  induction turns generalizing i ret with
  | zero => rfl
  | succ turns ih =>
    have hlt := i.toNat_lt
    have heven : (i + 2).toNat % 2 = 0 := by
      rw [UInt32.toNat_add, Nat.mod_mod_of_dvd _ ⟨2 ^ 31, by rfl⟩, Nat.add_mod, hi]
      rfl
    rw [hexToBytesLoop, if_pos (by omega)]
    exact ih heven _

theorem returns_iff {hex b : Bytes} :
    Returns hex b ↔ hex.length + 1 < 2 ^ 32 ∧ b = hexToBytes hex := by
  constructor
  · rintro ⟨turns, h⟩
    have hlen : hex.length + 1 < 2 ^ 32 := by
      by_contra hlong
      rw [hexToBytesLoop_stuck (Nat.not_lt.mp hlong) turns (by rfl)] at h
      cases h
    obtain ⟨turns', h'⟩ := hexToBytesLoop_ends hlen hex 0 [] (Nat.zero_add _) rfl
    exact ⟨hlen, hexToBytesLoop_det h h'⟩
  · rintro ⟨hlen, rfl⟩
    exact hexToBytesLoop_ends hlen hex 0 [] (Nat.zero_add _) rfl

def lowerCase (c : UInt8) : UInt8 := if chr 'A' ≤ c ∧ c ≤ chr 'Z' then c + 32 else c

def HexCharacter (c : UInt8) : Prop :=
  (chr '0' ≤ c ∧ c ≤ chr '9') ∨ (chr 'a' ≤ c ∧ c ≤ chr 'f') ∨ (chr 'A' ≤ c ∧ c ≤ chr 'F')

def Malformed (h : Bytes) : Prop := h.length % 2 = 1 ∨ ∃ c ∈ h, ¬ HexCharacter c

theorem not_malformed_iff {h : Bytes} : ¬ Malformed h ↔ IsHexText h := by
  rw [Malformed, IsHexText, not_or]
  refine and_congr (by omega) ?_
  simp only [not_exists, not_and, not_not, HexCharacter, isHexDigit_iff]

theorem hexPairs_error {s : Bytes} {e : Exception} (h : hexPairs s = .error e) :
    e.IsInvalidArgument := by
  induction s using hexPairs.induct with
  | case1 hiDigit loDigit rest ih =>
    have hvalue : ∀ {c e}, hexValue c = .error e → e.IsInvalidArgument := by
      intro c e hc
      simp only [hexValue] at hc
      split at hc
      · cases hc
        trivial
      · cases hc
    rw [hexPairs] at h
    rcases bind_eq_error h with h | ⟨hi, -, h⟩
    · exact hvalue h
    · rcases bind_eq_error h with h | ⟨lo, -, h⟩
      · exact hvalue h
      · rcases bind_eq_error h with h | ⟨output, -, h⟩
        · exact ih h
        · cases h
  | case2 s hshort =>
    rw [hexPairs] at h
    · cases h
    · exact hshort

theorem hexToString_error {s : Bytes} {e : Exception} (h : hexToString s = .error e) :
    e.IsInvalidArgument := by
  rw [hexToString] at h
  split at h
  · cases h
    trivial
  · exact hexPairs_error h

theorem digit_lowerCase {c : UInt8} {v : Int} (h : hexValue c = .ok v) :
    hexDigits.getD v.toNat 0 = lowerCase c := by
  have all : ∀ c : UInt8, hexValues.getD c.toNat (-1) ≠ -1 →
      hexDigits.getD (hexValues.getD c.toNat (-1)).toNat 0 = lowerCase c :=
    forall_byte (by decide +kernel)
  have hentry := digitEntry_of_ok h
  have hne : hexValues.getD c.toNat (-1) ≠ -1 := by
    have := hentry.nonneg
    rw [hentry.entry]
    omega
  rw [← all c hne, hentry.entry]

theorem nibbles_join {hi lo : Nat} (hhi : hi < 2 ^ 4) (hlo : lo < 2 ^ 4) :
    (UInt8.ofNat (hi <<< 4 ||| lo) >>> 4).toNat = hi ∧
      (UInt8.ofNat (hi <<< 4 ||| lo) &&& 15).toNat = lo := by
  have hbyte : (UInt8.ofNat (hi <<< 4 ||| lo)).toNat = hi * 2 ^ 4 + lo := by
    rw [← Nat.shiftLeft_add_eq_or_of_lt hlo, Nat.shiftLeft_eq, UInt8.toNat_ofNat']
    omega
  rw [toNat_high, toNat_low, hbyte]
  omega

theorem stringToHex_of_hexToString {s b : Bytes} (h : hexToString s = .ok b) :
    stringToHex b = s.map lowerCase := by
  obtain ⟨heven, hpairs⟩ := hexPairs_of_hexToString h
  refine hexPairs_induction (P := fun s b => stringToHex b = s.map lowerCase) rfl ?_ heven hpairs
  intro c d hi lo rest output hhi hlo hrest
  have hhi16 : hi.toNat < 2 ^ 4 := by have := (digitEntry_of_ok hhi).lt; omega
  have hlo16 : lo.toNat < 2 ^ 4 := by have := (digitEntry_of_ok hlo).lt; omega
  obtain ⟨hhigh, hlow⟩ := nibbles_join hhi16 hlo16
  rw [stringToHex, List.flatMap_cons, ← stringToHex, hrest, hhigh, hlow, digit_lowerCase hhi,
    digit_lowerCase hlo]
  rfl

structure Agreement (s h : Bytes) : Prop where
  roundTrip : hexToString (stringToHex s) = .ok s
  throws_iff : (∃ e, hexToString h = .error e ∧ e.IsInvalidArgument) ↔ Malformed h
  otherwise : ¬ Malformed h →
    ∃ b, hexToString h = .ok b ∧ stringToHex b = h.map lowerCase ∧ Returns h b

theorem hexToString_throws_iff {h : Bytes} :
    (∃ e, hexToString h = .error e ∧ e.IsInvalidArgument) ↔ Malformed h := by
  rw [← not_iff_not, not_malformed_iff, ← hexToString_ok_iff]
  cases hread : hexToString h with
  | ok b => exact iff_of_true (fun ⟨e, he, _⟩ => nomatch he) ⟨b, rfl⟩
  | error e => exact iff_of_false (fun hno => hno ⟨e, rfl, hexToString_error hread⟩) nofun

theorem returns_of_lt {h b : Bytes} (hread : hexToString h = .ok b) (hlen : h.length < 2 ^ 32) :
    Returns h b := by
  have heven := (hexToString_ok_iff.mp ⟨b, hread⟩).1
  exact returns_iff.mpr ⟨by omega, (hexToBytes_of_hexToString hread).symm⟩

theorem not_agreement_of_long {s h : Bytes} (hread : IsHexText h) (hlen : 2 ^ 32 ≤ h.length) :
    ¬ Agreement s h := by
  intro hagree
  obtain ⟨b, -, -, hreturns⟩ := hagree.otherwise (not_malformed_iff.mpr hread)
  exact absurd (returns_iff.mp hreturns).1 (by omega)

theorem agreement_iff (s h : Bytes) : Agreement s h ↔ Malformed h ∨ h.length < 2 ^ 32 := by
  constructor
  · intro hagree
    by_contra hno
    rw [not_or, not_malformed_iff, Nat.not_lt] at hno
    exact not_agreement_of_long hno.1 hno.2 hagree
  · intro hshort
    refine ⟨hexToString_stringToHex s, hexToString_throws_iff, fun hwell => ?_⟩
    obtain ⟨b, hb⟩ := hexToString_ok_iff.mpr (not_malformed_iff.mp hwell)
    exact ⟨b, hb, stringToHex_of_hexToString hb, returns_of_lt hb (hshort.resolve_left hwell)⟩

theorem zeros_disagree : ¬ Agreement [] (List.replicate (2 ^ 32) (chr '0')) := by
  refine not_agreement_of_long ⟨?_, fun c hc => ?_⟩ ?_
  · rw [List.length_replicate]
    rfl
  · rw [List.eq_of_mem_replicate hc]
    exact isHexDigit_iff.mpr (.inl (by decide))
  · rw [List.length_replicate]

end MxSdk.Hex
