import MxSdk.Internal.BigUInt
import MxSdk.Lib.BigEndian
import MxSdk.Utils.Hex
import MxSdk.Vendor.Division

/-! The number of a `BigUInt`, and the operators of internal/biguint.cpp that compute
with it. The order compares numbers and `operator==` compares texts, so the two agree
where the texts do not hide a number behind zeros or a sign. -/

namespace MxSdk.BigUInt
open Decimal

/-- The text after the minus sign, which zero may carry. -/
def unsigned (a : BigUInt) : Bytes := a.value.dropWhile (· = chr '-')

def toNat (a : BigUInt) : Nat := Decimal.value a.unsigned

def SignedZero (s : Bytes) : Prop := ∃ n, s = chr '-' :: List.replicate (n + 1) zero

theorem exists_ofString_iff {s : Bytes} : (∃ a, ofString s = .ok a) ↔
    (∀ c ∈ s, isDigit c = true) ∨ SignedZero s := by
  have haccepted : (∃ a, ofString s = .ok a) ↔ ∃ n : Nat, Integer.parse s 10 = .ok n :=
    ⟨fun ⟨a, ha⟩ => ofString_eq_ok_iff.mp ha ▸ a.accepted,
      fun h => ⟨⟨s, h⟩, ofString_eq_ok_iff.mpr rfl⟩⟩
  rw [haccepted]
  constructor
  · rintro ⟨n, hn⟩
    refine (Integer.parse_ok_iff.mp hn).imp And.left ?_
    rintro ⟨t, rfl, hne, hdigits, hneg⟩
    have hzeros := (value_eq_zero_iff hdigits).mp (by omega)
    obtain ⟨m, hm⟩ := Nat.exists_eq_succ_of_ne_zero (mt List.length_eq_zero_iff.mp hne)
    exact ⟨m, congrArg _ (List.eq_replicate_iff.mpr ⟨hm, hzeros⟩)⟩
  · rintro (hdigits | ⟨n, rfl⟩)
    · exact ⟨_, Integer.parse_digits hdigits⟩
    · have hne : List.replicate (n + 1) zero ≠ [] := List.cons_ne_nil _ _
      refine ⟨0, ?_⟩
      rw [Integer.parse_minus hne fun _ => zeros_isDigit, value_zeros]
      rfl

theorem dropWhile_minus {s : Bytes} (h : ∀ c ∈ s, isDigit c = true) :
    s.dropWhile (· = chr '-') = s := by
  cases s with
  | nil => rfl
  | cons c s =>
    refine List.dropWhile_cons_of_neg fun hc => ?_
    have hdigit := h c List.mem_cons_self
    rw [of_decide_eq_true hc] at hdigit
    cases hdigit

theorem value_cases (a : BigUInt) :
    (∀ c ∈ a.unsigned, isDigit c = true) ∧ Integer.parse a.value 10 = .ok a.toNat := by
  rcases exists_ofString_iff.mp ⟨a, ofString_value a⟩ with hdigits | ⟨n, hn⟩
  · rw [toNat, unsigned, dropWhile_minus hdigits]
    exact ⟨hdigits, Integer.parse_digits hdigits⟩
  · have hzeros : ∀ c ∈ List.replicate (n + 1) zero, isDigit c = true := fun _ => zeros_isDigit
    have hne : List.replicate (n + 1) zero ≠ [] := List.cons_ne_nil _ _
    rw [toNat, unsigned, hn, List.dropWhile_cons_of_pos (by decide), dropWhile_minus hzeros,
      Integer.parse_minus hne hzeros, value_zeros]
    exact ⟨hzeros, rfl⟩

theorem unsigned_digits (a : BigUInt) : ∀ c ∈ a.unsigned, isDigit c = true := a.value_cases.1

theorem parse_value (a : BigUInt) : Integer.parse a.value 10 = .ok a.toNat := a.value_cases.2

def ofNat (n : Nat) : BigUInt := ⟨decimal n, accepted_decimal n⟩

theorem ofUInt64_eq (value : UInt64) : ofUInt64 value = ofNat value.toNat := rfl

theorem toNat_eq_of_digits {a : BigUInt} (h : ∀ c ∈ a.value, isDigit c = true) :
    a.toNat = Decimal.value a.value := by
  have hparse := Integer.parse_digits h
  rw [parse_value] at hparse
  exact Int.ofNat.inj (Except.ok.inj hparse)

@[simp] theorem toNat_ofNat (n : Nat) : (ofNat n).toNat = n := by
  rw [toNat_eq_of_digits fun _ => decimal_isDigit]
  exact value_decimal n

theorem ofString_decimal (n : Nat) : ofString (decimal n) = .ok (ofNat n) :=
  ofString_value (ofNat n)

theorem ofString_digits {s : Bytes} (h : ∀ c ∈ s, isDigit c = true) :
    ∃ a, ofString s = .ok a ∧ a.value = s ∧ a.toNat = Decimal.value s := by
  obtain ⟨a, ha⟩ : ∃ a : BigUInt, a.value = s := ⟨⟨s, _, Integer.parse_digits h⟩, rfl⟩
  exact ⟨a, ofString_eq_ok_iff.mpr ha, ha, by rw [← ha, toNat_eq_of_digits (ha ▸ h)]⟩

def IsNatural (s : Bytes) : Prop := s ≠ [] ∧ ∀ c ∈ s, isDigit c = true

/-- Apart from the empty text and the signed zeros, the numerals are what is accepted. -/
theorem accepts_naturals_iff (s : Bytes) :
    (((∃ a, ofString s = .ok a) ↔ IsNatural s) ∧
        (¬ IsNatural s → ∃ e, ofString s = .error e ∧ e.IsInvalidArgument)) ↔
      s ≠ [] ∧ ¬ SignedZero s := by
  have hsigned : SignedZero s → ¬ ∀ c ∈ s, isDigit c = true := by
    rintro ⟨n, rfl⟩ hdigits
    cases hdigits (chr '-') List.mem_cons_self
  rw [exists_ofString_iff, IsNatural]
  constructor
  · rintro ⟨haccepts, -⟩
    exact ⟨fun hnil => (haccepts.mp (.inl (hnil ▸ nofun))).1 hnil,
      fun hzero => hsigned hzero (haccepts.mp (.inr hzero)).2⟩
  · rintro ⟨hne, hzero⟩
    refine ⟨⟨fun h => ⟨hne, h.resolve_right hzero⟩, fun h => .inl h.2⟩, fun hnot => ?_⟩
    cases hs : ofString s with
    | error e => exact ⟨e, rfl, ofString_error hs⟩
    | ok a =>
      exact absurd ⟨hne, (exists_ofString_iff.mp ⟨a, hs⟩).resolve_right hzero⟩ hnot

theorem accepts_naturals_fails : ¬ ∀ s, (∃ a, ofString s = .ok a) ↔ IsNatural s := by
  intro h
  have hzero : ∃ a, ofString (ascii "-0") = .ok a := exists_ofString_iff.mpr (.inr ⟨0, rfl⟩)
  cases ((h _).mp hzero).2 (chr '-') (by decide +kernel)

def gt (a rhs : BigUInt) : Except Exception Bool := do
  let v1 ← Integer.parse a.value 10
  let v2 ← Integer.parse rhs.value 10
  .ok (v1 > v2)

def lt (a rhs : BigUInt) : Except Exception Bool := do
  let v1 ← Integer.parse a.value 10
  let v2 ← Integer.parse rhs.value 10
  .ok (v1 < v2)

def divmod (a rhs : BigUInt) : Except Exception (BigUInt × BigUInt) := do
  let v1 ← Integer.parse a.value 10
  let v2 ← Integer.parse rhs.value 10
  let res ← Integer.divmod v1 v2
  let retV1 ← ofString (← Integer.str res.1 10)
  let retV2 ← ofString (← Integer.str res.2 10)
  .ok (retV1, retV2)

def getHexValue (a : BigUInt) : Except Exception Bytes :=
  match Integer.parse a.value 10 >>= fun number => Integer.str number 16 with
  | .error e => throw (.invalidArgument (errorMsgCannotConvertToBase ++ decimal 16 ++
      ascii ", value: " ++ a.value ++ ascii ", reason: " ++ e.what))
  | .ok ret => .ok (if ret.length % 2 ≠ 0 then chr '0' :: ret else ret)

theorem gt_eq (a b : BigUInt) : a.gt b = .ok (decide (b.toNat < a.toNat)) := by
  rw [gt, parse_value, parse_value]
  simp only [bind, Except.bind, gt_iff_lt, Nat.cast_lt]

theorem lt_eq (a b : BigUInt) : a.lt b = .ok (decide (a.toNat < b.toNat)) := by
  rw [lt, parse_value, parse_value]
  simp only [bind, Except.bind, Nat.cast_lt]

theorem str_decimal (n : Nat) : Integer.str n 10 = .ok (decimal n) := by
  rw [Integer.str_natCast n (by decide), Integer.numeral_ten]

theorem divmod_eq (a : BigUInt) {b : BigUInt} (h : 0 < b.toNat) :
    a.divmod b = .ok (ofNat (a.toNat / b.toNat), ofNat (a.toNat % b.toNat)) := by
  rw [divmod, parse_value, parse_value]
  simp only [bind, Except.bind, Integer.divmod_natCast _ h, str_decimal, ofString_decimal]

def padEven (s : Bytes) : Bytes := if s.length % 2 ≠ 0 then chr '0' :: s else s

theorem padEven_append_pair (s : Bytes) (a b : UInt8) :
    padEven (s ++ [a, b]) = padEven s ++ [a, b] := by
  have hlen : (s ++ [a, b]).length % 2 = s.length % 2 := by
    simp
  rw [padEven, padEven, hlen]
  split <;> rfl

theorem stringToHex_byte {n : Nat} (h : n < 256) : Hex.stringToHex [UInt8.ofNat n] =
    [Hex.hexDigits.getD (n / 16) 0, Hex.hexDigits.getD (n % 16) 0] := by
  have hn : (UInt8.ofNat n).toNat = n := by
    rw [UInt8.toNat_ofNat']
    omega
  rw [Hex.stringToHex, List.flatMap_cons, List.flatMap_nil, List.append_nil, Hex.toNat_high,
    Hex.toNat_low, hn]
  rfl

theorem numeral_step {n : Nat} (h : 16 ≤ n) : Integer.numeral 16 n =
    Integer.numeral 16 (n / 16) ++ [Hex.hexDigits.getD (n % 16) 0] := by
  rw [Integer.numeral, if_neg (by omega), Integer.numeral, if_neg (by omega),
    Nat.digits_def' (by decide) (by omega), List.map_cons, List.reverse_cons]
  rfl

theorem numeral_digit {n : Nat} (h : n < 16) :
    Integer.numeral 16 n = [Hex.hexDigits.getD n 0] := by
  by_cases hn : n = 0
  · rw [hn]
    rfl
  · rw [Integer.numeral, if_neg hn, Nat.digits_of_lt 16 n hn h]
    rfl

/-- Pairs of hexadecimal digits are bytes, from the last pair on. -/
theorem padEven_numeral (n : Nat) :
    padEven (Integer.numeral 16 n) = Hex.stringToHex (BigEndian.bytes n) := by
  induction n using Nat.strong_induction_on with
  | _ n ih =>
    by_cases hbyte : n < 256
    · rw [BigEndian.bytes_small hbyte, stringToHex_byte hbyte]
      by_cases hdigit : n < 16
      · rw [numeral_digit hdigit, Nat.div_eq_of_lt hdigit, Nat.mod_eq_of_lt hdigit]
        rfl
      · rw [numeral_step (Nat.not_lt.mp hdigit), numeral_digit (by omega), List.singleton_append,
          ← List.nil_append [_, _], padEven_append_pair]
        rfl
    · have hdiv : n / 16 / 16 = n / 256 := Nat.div_div_eq_div_mul n 16 16
      have hbytes := BigEndian.bytes_step (Nat.not_lt.mp hbyte)
      rw [numeral_step (by omega), numeral_step (by omega), hdiv, List.append_assoc,
        List.singleton_append, padEven_append_pair, ih _ (by omega), hbytes, Hex.stringToHex,
        Hex.stringToHex, List.flatMap_append, ← Hex.stringToHex, ← Hex.stringToHex,
        stringToHex_byte (Nat.mod_lt n (by decide))]
      have hhigh : n / 16 % 16 = n % 256 / 16 := by omega
      have hlow : n % 16 = n % 256 % 16 := by omega
      rw [hhigh, hlow]

theorem getHexValue_eq (a : BigUInt) :
    a.getHexValue = .ok (Hex.stringToHex (BigEndian.bytes a.toNat)) := by
  rw [getHexValue, parse_value]
  simp only [bind, Except.bind, Integer.str_natCast _ (show 2 ≤ 16 ∧ 16 ≤ 16 by decide)]
  exact congrArg Except.ok (padEven_numeral a.toNat)

def ExactlyOne (p q r : Prop) : Prop := (p ∧ ¬ q ∧ ¬ r) ∨ (¬ p ∧ q ∧ ¬ r) ∨ (¬ p ∧ ¬ q ∧ r)

/-- What `a` and `b` compared by `operator==` and ordered by their numbers share. -/
structure Coherent (a b : BigUInt) : Prop where
  equals : a.equals b = true ↔ a.toNat = b.toNat
  trichotomy : ExactlyOne (a.lt b = .ok true) (a.equals b = true) (a.gt b = .ok true)
  texts : a.equals b = true → a.value = b.value ∧ a.getHexValue = b.getHexValue

/-- Two texts that differ by zeros or a sign in front, and by nothing else, are where
the operators disagree. -/
theorem coherent_iff (a b : BigUInt) :
    Coherent a b ↔ (significant a.unsigned = significant b.unsigned → a.value = b.value) := by
  have hsig : significant a.unsigned = significant b.unsigned ↔ a.toNat = b.toNat :=
    significant_eq_iff a.unsigned_digits b.unsigned_digits
  have heq : a.equals b = true ↔ a.value = b.value := decide_eq_true_iff
  have hnat (h : a.value = b.value) : a.toNat = b.toNat := by rw [ext_value h]
  rw [hsig]
  constructor
  · exact fun h hab => heq.mp (h.equals.mpr hab)
  · intro h
    refine ⟨heq.trans ⟨hnat, h⟩, ?_, fun hab => ?_⟩
    · rw [lt_eq, gt_eq, heq, Except.ok.injEq, decide_eq_true_eq, Except.ok.injEq,
        decide_eq_true_eq]
      rcases lt_trichotomy a.toNat b.toNat with hlt | hab | hgt
      · exact .inl ⟨hlt, fun hv => hlt.ne (hnat hv), hlt.not_gt⟩
      · exact .inr (.inl ⟨hab.not_lt, h hab, hab.not_gt⟩)
      · exact .inr (.inr ⟨hgt.not_gt, fun hv => hgt.ne' (hnat hv), hgt⟩)
    · rw [ext_value (heq.mp hab)]
      exact ⟨rfl, rfl⟩

theorem coherent_one_fails : ¬ ∀ a b : BigUInt, Coherent a b := by
  intro h
  have hcoherent := h ⟨ascii "1", 1, rfl⟩ ⟨ascii "01", 1, rfl⟩
  exact absurd (hcoherent.equals.mpr rfl) (by decide +kernel)

end MxSdk.BigUInt
