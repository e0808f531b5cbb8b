import MxSdk.Vendor.Division

/-! Sums, differences and products of the vendored `integer`. An `integer` is a sign and a
magnitude: the signs are compared here as the source compares them, and the magnitudes
are added and subtracted as numbers, their digits left out as in division. -/

namespace MxSdk

/-- `fft_mult`, on magnitudes. It computes in floating point. -/
class FftMult where
  fftMult : Nat → Nat → Nat

@[reducible] def FftMult.long : FftMult := ⟨fun lhs rhs => lhs * rhs⟩

def FftMult.Exact [FftMult] : Prop := ∀ lhs rhs, fftMult lhs rhs = lhs * rhs

namespace Integer

/-- `_sign`: whether it is `NEGATIVE`. -/
def sign (n : Int) : Bool := n < 0

/-- The magnitude under the sign. `trim` takes the sign from zero. -/
def signed (sign : Bool) (value : Nat) : Int := if sign then -value else value

def add (lhs rhs : Int) : Int :=
  if rhs = 0 then lhs
  else if lhs = 0 then rhs
  else if lhs.natAbs > rhs.natAbs then
    signed (sign lhs) (if sign lhs = sign rhs then lhs.natAbs + rhs.natAbs
      else lhs.natAbs - rhs.natAbs)
  else if lhs.natAbs < rhs.natAbs then
    signed (sign rhs) (if sign lhs = sign rhs then rhs.natAbs + lhs.natAbs
      else rhs.natAbs - lhs.natAbs)
  else if sign lhs = sign rhs then signed (sign lhs) (lhs.natAbs <<< 1)
  else 0

def sub (lhs rhs : Int) : Int :=
  if lhs.natAbs > rhs.natAbs then
    signed (sign lhs) (if sign lhs = sign rhs then lhs.natAbs - rhs.natAbs
      else lhs.natAbs + rhs.natAbs)
  else if lhs.natAbs < rhs.natAbs then
    match sign lhs, sign rhs with
    | true, true => signed false (rhs.natAbs - lhs.natAbs)
    | true, false => signed true (rhs.natAbs + lhs.natAbs)
    | false, true => signed false (lhs.natAbs + rhs.natAbs)
    | false, false => signed true (rhs.natAbs - lhs.natAbs)
  else if sign lhs = sign rhs then 0
  else signed (sign lhs) (lhs.natAbs <<< 1)

def mul [FftMult] (lhs rhs : Int) : Int :=
  if lhs = 0 ∨ rhs = 0 then 0
  else if lhs = 1 then rhs
  else if rhs = 1 then lhs
  else signed (sign lhs ^^ sign rhs) (FftMult.fftMult lhs.natAbs rhs.natAbs)

theorem signed_sign (n : Int) : signed (sign n) n.natAbs = n := by
  by_cases h : n < 0
  · have hs : sign n = true := decide_eq_true h
    rw [hs]
    show -(n.natAbs : Int) = n
    omega
  · have hs : sign n = false := decide_eq_false h
    rw [hs]
    exact Int.natAbs_of_nonneg (Int.not_lt.mp h)

theorem signed_not (s : Bool) (m : Nat) : signed (!s) m = -signed s m := by
  cases s with
  | false => rfl
  | true => exact (neg_neg _).symm

theorem signed_eq {s : Bool} {n : Int} (h : s = sign n) : signed s n.natAbs = n := by
  rw [h, signed_sign]

theorem signed_ne {s : Bool} {n : Int} (h : s ≠ sign n) : signed s n.natAbs = -n := by
  rw [Bool.eq_not.mpr h, signed_not, signed_sign]

theorem eq_of_sign_eq {lhs rhs : Int} (hs : sign lhs = sign rhs)
    (h : lhs.natAbs = rhs.natAbs) : lhs = rhs := by
  rw [← signed_sign lhs, h, signed_eq hs]

theorem eq_neg_of_sign_ne {lhs rhs : Int} (hs : sign lhs ≠ sign rhs)
    (h : lhs.natAbs = rhs.natAbs) : lhs = -rhs := by
  rw [← signed_sign lhs, h, signed_ne hs]

theorem signed_add (s : Bool) (m n : Nat) : signed s (m + n) = signed s m + signed s n := by
  cases s with
  | false => exact Int.natCast_add m n
  | true =>
    show -((m + n : Nat) : Int) = -m + -n
    omega

theorem signed_sub (s : Bool) {m n : Nat} (h : n ≤ m) :
    signed s (m - n) = signed s m - signed s n := by
  rw [eq_sub_iff_add_eq, ← signed_add, Nat.sub_add_cancel h]

theorem signed_double (s : Bool) (m : Nat) : signed s (m <<< 1) = signed s m + signed s m := by
  rw [Nat.shiftLeft_eq, pow_one, Nat.mul_two, signed_add]

theorem signed_mul (s t : Bool) (m n : Nat) :
    signed (s ^^ t) (m * n) = signed s m * signed t n := by
  cases s with
  | false =>
    cases t with
    | false => exact Int.natCast_mul m n
    | true => exact (congrArg Neg.neg (Int.natCast_mul m n)).trans (mul_neg _ _).symm
  | true =>
    cases t with
    | false => exact (congrArg Neg.neg (Int.natCast_mul m n)).trans (neg_mul _ _).symm
    | true => exact (Int.natCast_mul m n).trans (neg_mul_neg _ _).symm

theorem add_eq (lhs rhs : Int) : add lhs rhs = lhs + rhs := by
  rw [add]
  by_cases hs : sign lhs = sign rhs
  · simp only [if_pos hs]
    split_ifs with hr hl hgt hlt
    · rw [hr, add_zero]
    · rw [hl, zero_add]
    · rw [signed_add, signed_sign, signed_eq hs]
    · rw [signed_add, signed_sign, signed_eq hs.symm, add_comm]
    · have heq := eq_of_sign_eq hs (by omega)
      rw [signed_double, signed_sign, heq]
  · simp only [if_neg hs]
    split_ifs with hr hl hgt hlt
    · rw [hr, add_zero]
    · rw [hl, zero_add]
    · rw [signed_sub _ hgt.le, signed_sign, signed_ne hs, sub_neg_eq_add]
    · rw [signed_sub _ hlt.le, signed_sign, signed_ne (Ne.symm hs), sub_neg_eq_add, add_comm]
    · have hneg := eq_neg_of_sign_ne hs (by omega)
      rw [hneg, neg_add_cancel]

theorem sub_eq (lhs rhs : Int) : sub lhs rhs = lhs - rhs := by
  have hsmaller : (match sign lhs, sign rhs with
      | true, true => signed false (rhs.natAbs - lhs.natAbs)
      | true, false => signed true (rhs.natAbs + lhs.natAbs)
      | false, true => signed false (lhs.natAbs + rhs.natAbs)
      | false, false => signed true (rhs.natAbs - lhs.natAbs)) =
      if sign lhs = sign rhs then signed (!sign lhs) (rhs.natAbs - lhs.natAbs)
      else signed (sign lhs) (lhs.natAbs + rhs.natAbs) := by
    cases sign lhs <;> cases sign rhs <;> simp [Nat.add_comm]
  rw [sub, hsmaller]
  by_cases hs : sign lhs = sign rhs
  · simp only [if_pos hs]
    split_ifs with hgt hlt
    · rw [signed_sub _ hgt.le, signed_sign, signed_eq hs]
    · rw [signed_not, signed_sub _ hlt.le, signed_sign, signed_eq hs, neg_sub]
    · have heq := eq_of_sign_eq hs (by omega)
      rw [heq, sub_self]
  · simp only [if_neg hs]
    have hsum : signed (sign lhs) (lhs.natAbs + rhs.natAbs) = lhs - rhs := by
      rw [signed_add, signed_sign, signed_ne hs, ← sub_eq_add_neg]
    split_ifs with hgt hlt
    · exact hsum
    · exact hsum
    · have hneg := eq_neg_of_sign_ne hs (by omega)
      rw [signed_double, signed_sign, hneg, sub_eq_add_neg]

theorem mul_eq [FftMult] (h : FftMult.Exact) (lhs rhs : Int) : mul lhs rhs = lhs * rhs := by
  rw [mul, h]
  split_ifs with hzero hl hr
  · exact (mul_eq_zero.mpr hzero).symm
  · rw [hl, one_mul]
  · rw [hr, mul_one]
  · rw [signed_mul, signed_sign, signed_sign]

end Integer

end MxSdk
