import MxSdk.Transaction.Amount

/-! The pretty string of a payment is the quotient and the remainder of its value by
one unit, the remainder padded to the decimals of the token. Reading it back gives
the value. -/

namespace MxSdk.TokenPayment
open Decimal

def remainder (v n : Nat) : Bytes :=
  zeroes (n - (decimal (v % 10 ^ n)).length) ++ decimal (v % 10 ^ n)

theorem remainder_digits (v n : Nat) : ∀ c ∈ remainder v n, isDigit c = true := fun c hc =>
  (List.mem_append.mp hc).elim (zeroes_digits c) decimal_isDigit

theorem value_remainder (v n : Nat) : Decimal.value (remainder v n) = v % 10 ^ n := by
  rw [remainder, value_append, zeroes, value_zeros, value_decimal, Nat.zero_mul, Nat.zero_add]

theorem remainder_zero (v : Nat) : remainder v 0 = [zero] := by
  rw [remainder, pow_zero, Nat.mod_one, Nat.zero_sub]
  rfl

theorem length_remainder (v : Nat) {n : Nat} (hn : 0 < n) : (remainder v n).length = n := by
  have hle := length_decimal_le hn (Nat.mod_lt v (show 0 < 10 ^ n by positivity))
  rw [remainder, List.length_append, zeroes, List.length_replicate]
  omega

theorem isNumeral_one : IsNumeral (ascii "1") := isNumeral_decimal 1

theorem denominator_ok (n : UInt32) : ∃ d, bigUIntFromVal (ascii "1") n = .ok d ∧
    d.value.length = n.toNat + 1 ∧ d.toNat = 10 ^ n.toNat := by
  obtain ⟨d, hd, htext, hvalue⟩ := bigUIntFromVal_ok (.inl isNumeral_one) n
  refine ⟨d, hd, ?_, ?_⟩
  · rw [htext, scaledText, if_neg (not_mem_point isNumeral_one), List.length_append, zeroes,
      List.length_replicate, Nat.add_comm]
    rfl
  · rw [hvalue, scaledText, if_neg (not_mem_point isNumeral_one), zeroes, value_append_zeros]
    exact Nat.one_mul _

theorem zeroesCt_eq {n m : Nat} (hn : n < 2 ^ 31) (hm : 0 < m) (hmn : m ≤ n + 1) :
    (max (toInt ((n + 1 : Nat) - m) - 1) 0).toNat = n - m := by
  rw [toInt, Int.bmod_def]
  split <;> omega

theorem toPrettyString_eq {p : TokenPayment} (h : p.numDecimals.toNat < 2 ^ 31) :
    p.toPrettyString = .ok (decimal (p.value.toNat / 10 ^ p.numDecimals.toNat) ++ ascii "." ++
      remainder p.value.toNat p.numDecimals.toNat ++ ascii " " ++ p.tokenIdentifier) := by
  obtain ⟨d, hd, hlength, hnat⟩ := denominator_ok p.numDecimals
  have hpow : 0 < 10 ^ p.numDecimals.toNat := by positivity
  have hrem := length_decimal_le (Nat.succ_pos p.numDecimals.toNat)
    ((Nat.mod_lt p.value.toNat hpow).trans (Nat.pow_lt_pow_right (by decide) (Nat.lt_succ_self _)))
  have hcount := zeroesCt_eq h (List.length_pos_iff.mpr (decimal_ne_nil _)) hrem
  rw [toPrettyString, hd]
  simp only [bind, Except.bind, BigUInt.divmod_eq _ (hnat ▸ hpow), hnat, hlength]
  rw [remainder, ← hcount]
  rfl

theorem units_printed (v n : Nat) :
    units (decimal (v / 10 ^ n) ++ point :: remainder v n) n = v := by
  rw [units, integerPart_append fun _ => decimal_isDigit,
    fraction_append fun _ => decimal_isDigit, value_decimal, value_remainder]
  rcases Nat.eq_zero_or_pos n with hn | hn
  · rw [hn, remainder_zero, pow_zero, Nat.div_one, Nat.mod_one]
    simp
  · rw [length_remainder v hn, Nat.mul_div_cancel _ (by positivity)]
    exact Nat.div_add_mod' v (10 ^ n)

theorem hasPoint_printed (v n : Nat) :
    HasPoint (decimal (v / 10 ^ n) ++ point :: remainder v n) :=
  hasPoint_append (fun _ => decimal_isDigit) (remainder_digits v n)
    (fun h => decimal_ne_nil _ (List.append_eq_nil_iff.mp h).1) fun _ => isNumeral_decimal _

theorem toPrettyString_inverts (p : TokenPayment) (h : p.numDecimals.toNat < 2 ^ 31) :
    ∃ q r p', p.toPrettyString = .ok (q ++ ascii "." ++ r ++ ascii " " ++ p.tokenIdentifier) ∧
      IsNumeral q ∧ (∀ c ∈ r, isDigit c = true) ∧
      (0 < p.numDecimals.toNat → r.length = p.numDecimals.toNat) ∧
      (p.numDecimals.toNat = 0 → r = ascii "0") ∧
      fungibleFromAmount p.tokenIdentifier (q ++ ascii "." ++ r) p.numDecimals = .ok p' ∧
      p'.value.toNat = p.value.toNat := by
  set v := p.value.toNat with hv
  set n := p.numDecimals.toNat with hn
  have hpoint : decimal (v / 10 ^ n) ++ ascii "." ++ remainder v n =
      decimal (v / 10 ^ n) ++ point :: remainder v n := List.append_assoc _ _ _
  obtain ⟨b, hb, -, hvalue⟩ := bigUIntFromVal_ok (.inr (hasPoint_printed v n)) p.numDecimals
  refine ⟨decimal (v / 10 ^ n), remainder v n, ⟨p.tokenIdentifier, 0, b, p.numDecimals⟩,
    toPrettyString_eq h, isNumeral_decimal _, remainder_digits v n, length_remainder v,
    fun hz => by rw [hz, remainder_zero]; rfl, ?_, ?_⟩
  · rw [hpoint, fungibleFromAmount, hb]
    rfl
  · have hexact := (value_scaledText_iff (.inr (hasPoint_printed v n)) p.numDecimals).mpr
      (.inr (.inl (by omega)))
    rw [hvalue, hexact, units_printed]

theorem toPrettyString_inverts_cent :
    (2 : Nat) < 2 ^ 31 ∧
      ∃ q r p', toPrettyString ⟨ascii "COIN", 0, .ofNat 5, 2⟩ =
          .ok (q ++ ascii "." ++ r ++ ascii " " ++ ascii "COIN") ∧
        IsNumeral q ∧ (∀ c ∈ r, isDigit c = true) ∧ (0 < 2 → r.length = 2) ∧
        (2 = 0 → r = ascii "0") ∧
        fungibleFromAmount (ascii "COIN") (q ++ ascii "." ++ r) 2 = .ok p' ∧
        p'.value.toNat = (BigUInt.ofNat 5).toNat :=
  ⟨by decide, toPrettyString_inverts ⟨ascii "COIN", 0, .ofNat 5, 2⟩ (by decide)⟩

example : toPrettyString ⟨ascii "COIN", 0, .ofNat 5, 2⟩ = .ok (ascii "0.05 COIN") := by
  decide +kernel

end MxSdk.TokenPayment
