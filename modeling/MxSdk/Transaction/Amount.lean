import Mathlib.Algebra.Order.Floor.Semifield
import Mathlib.Data.Rat.Floor
import MxSdk.Transaction.TokenPayment

/-! What an amount is worth. It writes a rational number, which the decimals of the
token scale and truncate. The text that is kept has that value unless 2^31 zeros or
more are missing from the fraction: their count, as an `int`, is then negative and no
zero is written. The text is no canonical numeral where zeros of the fraction, or
none of its digits, are left to lead it. -/

namespace MxSdk.TokenPayment
open Decimal

/-- The rational number an amount writes. -/
def written (a : Bytes) : ℚ :=
  Decimal.value (integerPart a) + Decimal.value (fraction a) / 10 ^ (fraction a).length

/-- An amount in the smallest unit of a token with `n` decimals. -/
def units (a : Bytes) (n : Nat) : Nat :=
  (Decimal.value (integerPart a) * 10 ^ (fraction a).length + Decimal.value (fraction a)) * 10 ^ n /
    10 ^ (fraction a).length

theorem floor_written (a : Bytes) (n : Nat) : ⌊written a * 10 ^ n⌋₊ = units a n := by
  have hten : (10 : ℚ) ^ (fraction a).length ≠ 0 := by positivity
  rw [units, ← Nat.floor_div_eq_div (K := ℚ)]
  congr 1
  rw [written, add_mul, div_mul_eq_mul_div]
  push_cast
  field_simp

theorem integerPart_of_isNumeral {a : Bytes} (h : IsNumeral a) : integerPart a = a :=
  List.takeWhile_eq_self_iff.mpr fun c hc => by simpa using isDigit_ne_point (h.digits c hc)

theorem fraction_of_isNumeral {a : Bytes} (h : IsNumeral a) : fraction a = [] := by
  rw [fraction, List.dropWhile_eq_nil_iff.mpr fun c hc => by
    simpa using isDigit_ne_point (h.digits c hc)]
  rfl

theorem padding_eq {n : UInt32} {m : Nat} (h : m ≤ n.toNat) :
    padding n m = if n.toNat - m < 2 ^ 31 then n.toNat - m else 0 := by
  have hn := n.toNat_lt
  rw [padding, toInt, Int.bmod_def]
  split <;> split <;> omega

theorem value_whole (i : Bytes) :
    Decimal.value (if i = [zero] then [] else i) = Decimal.value i := by
  split
  · rename_i h
    rw [h]
    rfl
  · rfl

theorem value_scaledText_numeral {a : Bytes} (h : IsNumeral a) (n : UInt32) :
    Decimal.value (scaledText a n) = units a n.toNat := by
  rw [scaledText, if_neg (not_mem_point h), zeroes, value_append_zeros, units,
    integerPart_of_isNumeral h, fraction_of_isNumeral h]
  simp

theorem value_scaledText_cut {a : Bytes} (h : HasPoint a) {n : UInt32}
    (hn : n.toNat < (fraction a).length) :
    Decimal.value (scaledText a n) = units a n.toNat := by
  have hpow : 10 ^ (fraction a).length = 10 ^ ((fraction a).length - n.toNat) * 10 ^ n.toNat := by
    rw [← pow_add, Nat.sub_add_cancel hn.le]
  rw [scaledText, if_pos h.mem_point, value_append, value_whole, scaled, if_pos hn,
    value_take h.fraction, List.length_take, min_eq_left hn.le, units, hpow,
    Nat.mul_div_mul_right _ _ (by positivity)]
  set p := 10 ^ ((fraction a).length - n.toNat)
  have hp : 0 < p := by positivity
  rw [show Decimal.value (integerPart a) * (p * 10 ^ n.toNat) + Decimal.value (fraction a) =
    Decimal.value (fraction a) + p * (Decimal.value (integerPart a) * 10 ^ n.toNat) by ring,
    Nat.add_mul_div_left _ _ hp, Nat.add_comm]

def digitsValue (a : Bytes) : Nat := Decimal.value (integerPart a ++ fraction a)

theorem value_scaledText_padded {a : Bytes} (h : HasPoint a) {n : UInt32}
    (hn : (fraction a).length ≤ n.toNat) :
    Decimal.value (scaledText a n) = digitsValue a * 10 ^ padding n (fraction a).length ∧
      units a n.toNat = digitsValue a * 10 ^ (n.toNat - (fraction a).length) := by
  constructor
  · rw [scaledText, if_pos h.mem_point, value_append, value_whole, scaled,
      if_neg (Nat.not_lt.mpr hn), zeroes, value_append_zeros, List.length_append,
      List.length_replicate, pow_add, digitsValue, value_append]
    ring
  · have hpow : 10 ^ n.toNat = 10 ^ (n.toNat - (fraction a).length) * 10 ^ (fraction a).length := by
      rw [← pow_add, Nat.sub_add_cancel hn]
    rw [units, hpow, ← Nat.mul_assoc, Nat.mul_div_cancel _ (by positivity), digitsValue,
      value_append]

theorem digitsValue_eq_zero_iff {a : Bytes} (h : HasPoint a) :
    digitsValue a = 0 ↔ ∀ c ∈ a, c = zero ∨ c = point := by
  have hdigits : ∀ c ∈ integerPart a ++ fraction a, isDigit c = true := fun c hc =>
    (List.mem_append.mp hc).elim (h.integer c) (h.fraction c)
  have hmem (c : UInt8) : c ∈ a ↔ c ∈ integerPart a ++ fraction a ∨ c = point := by
    conv_lhs => rw [h.text]
    simp only [List.mem_append, List.mem_cons]
    tauto
  rw [digitsValue, value_eq_zero_iff hdigits]
  constructor
  · exact fun hz c hc => ((hmem c).mp hc).imp_left (hz c)
  · intro hz c hc
    refine (hz c ((hmem c).mpr (.inl hc))).resolve_right fun hp => ?_
    exact isDigit_ne_point (hdigits c hc) hp

theorem value_scaledText_iff {a : Bytes} (h : Accepted a) (n : UInt32) :
    Decimal.value (scaledText a n) = units a n.toNat ↔
      point ∉ a ∨ n.toNat - (fraction a).length < 2 ^ 31 ∨ ∀ c ∈ a, c = zero ∨ c = point := by
  rcases h with h | h
  · exact iff_of_true (value_scaledText_numeral h n) (.inl (not_mem_point h))
  · have hmem : ¬ point ∉ a := not_not.mpr h.mem_point
    by_cases hn : n.toNat < (fraction a).length
    · exact iff_of_true (value_scaledText_cut h hn) (.inr (.inl (by omega)))
    · obtain ⟨hval, hunits⟩ := value_scaledText_padded h (Nat.not_lt.mp hn)
      rw [hval, hunits, padding_eq (Nat.not_lt.mp hn), ← digitsValue_eq_zero_iff h]
      by_cases hshort : n.toNat - (fraction a).length < 2 ^ 31
      · rw [if_pos hshort]
        exact iff_of_true rfl (.inr (.inl hshort))
      · have hone : 1 < 10 ^ (n.toNat - (fraction a).length) :=
          Nat.one_lt_pow (by omega) (by decide)
        rw [if_neg hshort, pow_zero, Nat.mul_one]
        constructor
        · intro heq
          refine .inr (.inr ?_)
          by_contra hne
          exact absurd heq (lt_mul_of_one_lt_right (Nat.pos_of_ne_zero hne) hone).ne
        · rintro (hp | hlt | hz)
          · exact absurd hp hmem
          · exact absurd hlt hshort
          · rw [hz, Nat.zero_mul]

/-- Both functions that take an amount read it in the same way. -/
theorem fromAmount_spec {id a : Bytes} {nonce : UInt64} {n : UInt32} {p : TokenPayment}
    (h : fungibleFromAmount id a n = .ok p ∨ metaESDTFromAmount id nonce a n = .ok p) :
    Accepted a ∧ p.toString = scaledText a n ∧ p.value.toNat = Decimal.value (scaledText a n) := by
  rcases h with h | h
  all_goals
    obtain ⟨v, hv, hp⟩ := bind_eq_ok h
    rw [← Except.ok.inj hp]
    exact bigUIntFromVal_spec hv

theorem amount_exact_iff {id a : Bytes} {nonce : UInt64} {n : UInt32} {p : TokenPayment}
    (h : fungibleFromAmount id a n = .ok p ∨ metaESDTFromAmount id nonce a n = .ok p) :
    p.value.toNat = ⌊written a * 10 ^ n.toNat⌋₊ ↔
      point ∉ a ∨ n.toNat - (fraction a).length < 2 ^ 31 ∨ ∀ c ∈ a, c = zero ∨ c = point := by
  obtain ⟨ha, -, hvalue⟩ := fromAmount_spec h
  rw [hvalue, floor_written]
  exact value_scaledText_iff ha n

theorem amount_exact_iff_half :
    fungibleFromAmount (ascii "COIN") (ascii "1.5") 2 = .ok ⟨ascii "COIN", 0, .ofNat 150, 2⟩ ∧
      ((BigUInt.ofNat 150).toNat = ⌊written (ascii "1.5") * 10 ^ 2⌋₊ ↔
        point ∉ ascii "1.5" ∨ 2 - (fraction (ascii "1.5")).length < 2 ^ 31 ∨
          ∀ c ∈ ascii "1.5", c = zero ∨ c = point) :=
  have hread : fungibleFromAmount (ascii "COIN") (ascii "1.5") 2 =
    .ok ⟨ascii "COIN", 0, .ofNat 150, 2⟩ := by decide +kernel
  ⟨hread, @amount_exact_iff _ _ 0 _ _ (.inl hread)⟩

theorem accepted_trailing : HasPoint (ascii "1.") :=
  ⟨by decide +kernel, by decide +kernel, by decide +kernel, by decide +kernel,
    fun _ => ⟨by decide +kernel, by decide +kernel, fun _ ht => nomatch ht⟩⟩

/-- A trailing point loses all of the decimals from 2^31 on. -/
theorem amount_exact_trailing_fails : ¬ ∀ (id a : Bytes) (n : UInt32) (p : TokenPayment),
    fungibleFromAmount id a n = .ok p → p.value.toNat = ⌊written a * 10 ^ n.toNat⌋₊ := by
  intro h
  obtain ⟨v, hv, -, hvalue⟩ := bigUIntFromVal_ok (.inr accepted_trailing) 0x80000000
  have hexact := h [] (ascii "1.") 0x80000000 ⟨[], 0, v, 0x80000000⟩ (by
    rw [fungibleFromAmount, hv]
    rfl)
  rw [floor_written, hvalue] at hexact
  rcases (value_scaledText_iff (.inr accepted_trailing) 0x80000000).mp hexact with hp | hlt | hz
  · exact hp (by decide +kernel)
  · exact absurd hlt (by decide +kernel)
  · exact absurd (hz (chr '1') (by decide +kernel)) (by decide +kernel)

theorem isNumeral_zeroes_iff (k : Nat) : IsNumeral (zeroes k) ↔ k = 1 := by
  constructor
  · intro h
    cases k with
    | zero => exact absurd rfl h.ne_nil
    | succ k =>
      have hnil : zeroes k = [] := h.head (zeroes k) rfl
      cases k with
      | zero => rfl
      | succ k => cases hnil
  · rintro rfl
    exact isNumeral_decimal 0

theorem isNumeral_cons_iff {c : UInt8} {t : Bytes} (h : ∀ b ∈ c :: t, isDigit b = true) :
    IsNumeral (c :: t) ↔ c ≠ zero ∨ t = [] := by
  rw [isNumeral_iff_begins h, List.cons.injEq]
  constructor
  · rintro (⟨b, u, hbu, hb⟩ | ⟨-, ht⟩)
    · exact .inl ((List.cons.inj hbu).1 ▸ hb)
    · exact .inr ht
  · intro hor
    by_cases hc : c = zero
    · exact .inr ⟨hc, hor.resolve_left fun hne => hne hc⟩
    · exact .inl ⟨c, t, rfl, hc⟩

theorem beginsNonzero_cons_iff {c : UInt8} {t : Bytes} : BeginsNonzero (c :: t) ↔ c ≠ zero :=
  ⟨fun ⟨_, _, h, hb⟩ => (List.cons.inj h).1 ▸ hb, fun h => ⟨c, t, rfl, h⟩⟩

/-- What follows the first digit of a scaled fraction. -/
def scaledTail (t : Bytes) (n : UInt32) : Bytes :=
  if n.toNat < t.length + 1 then t.take (n.toNat - 1)
  else t ++ zeroes (padding n (t.length + 1))

theorem scaled_cons {c : UInt8} {t : Bytes} {n : UInt32} (hn : 0 < n.toNat) :
    scaled (c :: t) n = c :: scaledTail t n := by
  rw [scaled, scaledTail, List.length_cons]
  split
  · obtain ⟨m, hm⟩ := Nat.exists_eq_add_of_lt hn
    rw [hm, Nat.zero_add, List.take_succ_cons, Nat.add_sub_cancel]
  · rfl

theorem scaledTail_eq_nil_iff {t : Bytes} {n : UInt32} (hn : 0 < n.toNat) :
    scaledTail t n = [] ↔ n.toNat = 1 ∨ (t = [] ∧ 2 ^ 31 < n.toNat) := by
  have hempty : t = [] ↔ t.length = 0 := List.length_eq_zero_iff.symm
  rw [scaledTail]
  split
  · rw [List.take_eq_nil_iff, hempty]
    omega
  · rename_i hpad
    rw [List.append_eq_nil_iff, zeroes, List.replicate_eq_nil_iff,
      padding_eq (Nat.not_lt.mp hpad), hempty]
    split <;> omega

/-- A fraction alone is a canonical numeral once it is scaled: its first digit is not
zero, or it is a single digit, one of which is a zero whose padding is lost. -/
theorem isNumeral_scaled_iff {f : Bytes} (hf : ∀ c ∈ f, isDigit c = true) (n : UInt32) :
    IsNumeral (scaled f n) ↔
      (0 < n.toNat ∧ BeginsNonzero f) ∨ n.toNat = 1 ∨ (f = [zero] ∧ 2 ^ 31 < n.toNat) := by
  have hscaled := scaled_digits hf n
  cases f with
  | nil =>
    have hnil : ¬ BeginsNonzero [] := fun ⟨_, _, h, _⟩ => nomatch h
    rw [scaled, List.length_nil, if_neg (Nat.not_lt_zero _), List.nil_append,
      isNumeral_zeroes_iff, padding_eq (Nat.zero_le _)]
    simp only [hnil, and_false, false_or, Nat.sub_zero, List.nil_eq, List.cons_ne_nil, false_and,
      or_false]
    split <;> omega
  | cons c t =>
    rcases Nat.eq_zero_or_pos n.toNat with hn | hn
    · have hcut : scaled (c :: t) n = [] := by
        rw [scaled, hn, List.length_cons, if_pos (Nat.succ_pos _), List.take_zero]
      rw [hcut, hn]
      exact iff_of_false (fun h => h.ne_nil rfl) (by omega)
    · rw [scaled_cons hn] at hscaled ⊢
      rw [isNumeral_cons_iff hscaled, scaledTail_eq_nil_iff hn, beginsNonzero_cons_iff,
        List.cons.injEq]
      tauto

/-- Where the text that is kept is the canonical numeral. -/
def KeepsForm (a : Bytes) (n : Nat) : Prop :=
  BeginsNonzero (integerPart a) ∨ (point ∉ a ∧ n = 0) ∨
    (point ∈ a ∧ ((0 < n ∧ BeginsNonzero (fraction a)) ∨ n = 1 ∨
      (fraction a = [zero] ∧ 2 ^ 31 < n)))

theorem isNumeral_scaledText_iff {a : Bytes} (h : Accepted a) (n : UInt32) :
    IsNumeral (scaledText a n) ↔ KeepsForm a n.toNat := by
  have hdigits := scaledText_digits h n
  rw [KeepsForm]
  rcases h with h | h
  · have hp := not_mem_point h
    rw [scaledText, if_neg hp] at hdigits ⊢
    rw [integerPart_of_isNumeral h]
    rcases (isNumeral_iff_begins h.digits).mp h with ha | ha
    · exact iff_of_true ((isNumeral_iff_begins hdigits).mpr (.inl (beginsNonzero_append ha)))
        (.inl ha)
    · have hzeroes : a ++ zeroes n.toNat = zeroes (n.toNat + 1) := by rw [ha]; rfl
      have hbegins : ¬ BeginsNonzero a := by
        rw [ha, beginsNonzero_cons_iff]
        exact not_not.mpr rfl
      rw [hzeroes, isNumeral_zeroes_iff, Nat.add_eq_right]
      tauto
  · have hp := h.mem_point
    rw [scaledText, if_pos hp] at hdigits ⊢
    by_cases hi : BeginsNonzero (integerPart a)
    · have hne : integerPart a ≠ [zero] := by
        rintro hz
        rw [hz, beginsNonzero_cons_iff] at hi
        exact hi rfl
      rw [if_neg hne] at hdigits ⊢
      exact iff_of_true ((isNumeral_iff_begins hdigits).mpr (.inl (beginsNonzero_append hi)))
        (.inl hi)
    · have hfirst : (if integerPart a = [zero] then [] else integerPart a) = [] := by
        by_cases hnil : integerPart a = []
        · rw [hnil]
          rfl
        · exact if_pos (((isNumeral_iff_begins h.integer).mp (h.head hnil)).resolve_left hi)
      rw [hfirst, List.nil_append, isNumeral_scaled_iff h.fraction]
      tauto

theorem amount_canonical_iff {id a : Bytes} {nonce : UInt64} {n : UInt32} {p : TokenPayment}
    (h : fungibleFromAmount id a n = .ok p ∨ metaESDTFromAmount id nonce a n = .ok p) :
    (IsNumeral p.toString ∧ ∀ v, BigUInt.ofString (decimal p.value.toNat) = .ok v →
        p.value.equals (fungibleFromBigUInt id v n).value = true) ↔ KeepsForm a n.toNat := by
  obtain ⟨ha, htext, hvalue⟩ := fromAmount_spec h
  rw [← isNumeral_scaledText_iff ha, htext]
  refine ⟨And.left, fun hnumeral => ⟨hnumeral, fun v hv => ?_⟩⟩
  have hv' : v.value = p.value.value := by
    rw [BigUInt.ofString_eq_ok_iff.mp hv, hvalue, decimal_value hnumeral, ← htext]
    rfl
  exact BigUInt.equals_iff.mpr (BigUInt.ext_value hv'.symm)

theorem amount_canonical_iff_half :
    fungibleFromAmount (ascii "COIN") (ascii "1.5") 2 = .ok ⟨ascii "COIN", 0, .ofNat 150, 2⟩ ∧
      ((IsNumeral (toString ⟨ascii "COIN", 0, .ofNat 150, 2⟩) ∧
        ∀ v, BigUInt.ofString (decimal (BigUInt.ofNat 150).toNat) = .ok v →
          (BigUInt.ofNat 150).equals (fungibleFromBigUInt (ascii "COIN") v 2).value = true) ↔
        KeepsForm (ascii "1.5") 2) :=
  have hread : fungibleFromAmount (ascii "COIN") (ascii "1.5") 2 =
    .ok ⟨ascii "COIN", 0, .ofNat 150, 2⟩ := by decide +kernel
  ⟨hread, @amount_canonical_iff _ _ 0 _ _ (.inl hread)⟩

theorem amount_canonical_small_fails : ¬ ∀ (id a : Bytes) (n : UInt32) (p : TokenPayment),
    fungibleFromAmount id a n = .ok p → IsNumeral p.toString := by
  intro h
  have hread : (fungibleFromAmount [] (ascii "0.05") 2).map toString = .ok (ascii "05") := by
    decide +kernel
  cases hp : fungibleFromAmount [] (ascii "0.05") 2 with
  | error e =>
    rw [hp] at hread
    cases hread
  | ok p =>
    rw [hp] at hread
    have hnumeral := h [] (ascii "0.05") 2 p hp
    rw [Except.ok.inj hread] at hnumeral
    cases hnumeral.head [chr '5'] rfl

end MxSdk.TokenPayment
