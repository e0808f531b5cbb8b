import MxSdk.Vendor.IntegerDigits

/-! The operators of the vendored `integer` on what it stores. The results are trimmed, so
a stored integer is no more than its number, and each operator is the operator on numbers
of the rest of the development. -/

namespace MxSdk.Integer
open BigEndian

/-- `_sign` and `_value`, as `trim` leaves them. -/
structure Rep where
  negative : Bool
  value : Bytes
  trimmed : Trimmed value
  zero_positive : value = [] → negative = false
  deriving DecidableEq

namespace Rep

def trim (negative : Bool) (value : Bytes) : Rep where
  negative := if value.dropWhile (· = 0) = [] then false else negative
  value := value.dropWhile (· = 0)
  trimmed := trimmed_dropWhile value
  zero_positive h := if_pos h

def toInt (n : Rep) : Int := signed n.negative (BigEndian.value n.value)

theorem signed_zero (negative : Bool) : signed negative 0 = 0 := by cases negative <;> rfl

@[simp] theorem toInt_trim (negative : Bool) (value : Bytes) :
    (trim negative value).toInt = signed negative (BigEndian.value value) := by
  rw [toInt, trim, value_dropWhile_zero]
  split
  · next h =>
    have hzero := value_dropWhile_zero value
    rw [h] at hzero
    rw [← hzero]
    exact (signed_zero negative).symm
  · rfl

@[simp] theorem natAbs_toInt (n : Rep) : n.toInt.natAbs = BigEndian.value n.value := by
  rw [toInt, signed]
  split <;> simp

theorem toInt_eq_zero_iff {n : Rep} : n.toInt = 0 ↔ n.value = [] := by
  rw [← Int.natAbs_eq_zero, natAbs_toInt, n.trimmed.value_eq_zero_iff]

@[simp] theorem sign_toInt (n : Rep) : sign n.toInt = n.negative := by
  by_cases h : n.value = []
  · rw [toInt_eq_zero_iff.mpr h, n.zero_positive h]
    rfl
  · have hpos : 0 < BigEndian.value n.value :=
      Nat.pos_of_ne_zero fun hzero => h (n.trimmed.value_eq_zero_iff.mp hzero)
    rw [toInt, sign, signed]
    cases n.negative with
    | false => simp
    | true =>
      simp only [if_true, decide_eq_true_eq]
      omega

theorem toInt_inj {a b : Rep} (h : a.toInt = b.toInt) : a = b := by
  have hvalue : a.value = b.value := by
    refine a.trimmed.eq_of_value b.trimmed ?_
    rw [← natAbs_toInt, h, natAbs_toInt]
  have hsign : a.negative = b.negative := by rw [← sign_toInt, h, sign_toInt]
  cases a
  cases b
  simp_all

def ofInt (z : Int) : Rep := trim (sign z) (bytes z.natAbs)

@[simp] theorem toInt_ofInt (z : Int) : (ofInt z).toInt = z := by
  rw [ofInt, toInt_trim, value_bytes, signed_sign]

@[simp] theorem ofInt_toInt (n : Rep) : ofInt n.toInt = n := toInt_inj (toInt_ofInt _)

def setFromZ : Nat → Nat → Bytes → Bytes
  | 0, _, out => out
  | d + 1, val, out => setFromZ d (val >>> 8) (UInt8.ofNat val :: out)

/-- An unsigned machine integer of so many bytes. -/
def ofZ (octets val : Nat) : Rep := trim false (setFromZ octets val [])

theorem value_setFromZ (octets val : Nat) (out : Bytes) : BigEndian.value (setFromZ octets val out) =
    val % 256 ^ octets * 256 ^ out.length + BigEndian.value out := by
  induction octets generalizing val out with
  | zero => simp [setFromZ, Nat.mod_one]
  | succ d ih =>
    have hmod : val % 256 ^ (d + 1) = val % 256 + 256 * (val / 256 % 256 ^ d) := by
      rw [Nat.pow_succ', Nat.mod_mul]
    rw [setFromZ, ih, value_cons, UInt8.toNat_ofNat', Nat.shiftRight_eq_div_pow, hmod,
      List.length_cons, Nat.pow_succ]
    ring

theorem toInt_ofZ {octets val : Nat} (h : val < 256 ^ octets) : (ofZ octets val).toInt = val := by
  rw [ofZ, toInt_trim, value_setFromZ, Nat.mod_eq_of_lt h]
  simp [signed, BigEndian.value]

def gt (lhs rhs : Rep) : Bool :=
  match lhs.negative, rhs.negative with
  | true, false => false
  | false, true => true
  | true, true => gtDigits rhs.value lhs.value
  | false, false => gtDigits lhs.value rhs.value

def lt (lhs rhs : Rep) : Bool :=
  match lhs.negative, rhs.negative with
  | true, false => true
  | false, true => false
  | true, true => ltDigits rhs.value lhs.value
  | false, false => ltDigits lhs.value rhs.value

def ge (lhs rhs : Rep) : Bool := gt lhs rhs || lhs = rhs

theorem lt_eq_gt (lhs rhs : Rep) : lt lhs rhs = gt rhs lhs := by
  rw [lt, gt]
  cases lhs.negative <;> cases rhs.negative <;> rfl

theorem toInt_negative {n : Rep} (h : n.negative = true) :
    n.toInt = -(BigEndian.value n.value : Int) := if_pos h

theorem toInt_positive {n : Rep} (h : n.negative = false) :
    n.toInt = BigEndian.value n.value := if_neg (by simp [h])

theorem value_pos {n : Rep} (h : n.negative = true) : 0 < BigEndian.value n.value := by
  refine Nat.pos_of_ne_zero fun hzero => ?_
  rw [n.zero_positive (n.trimmed.value_eq_zero_iff.mp hzero)] at h
  cases h

theorem gt_iff {lhs rhs : Rep} : gt lhs rhs = true ↔ rhs.toInt < lhs.toInt := by
  rw [gt]
  cases hl : lhs.negative with
  | true =>
    have hpos := value_pos hl
    cases hr : rhs.negative with
    | true =>
      rw [toInt_negative hl, toInt_negative hr]
      exact (gtDigits_iff rhs.trimmed lhs.trimmed).trans (by omega)
    | false =>
      rw [toInt_negative hl, toInt_positive hr]
      exact iff_of_false Bool.false_ne_true (by omega)
  | false =>
    cases hr : rhs.negative with
    | true =>
      have hpos := value_pos hr
      rw [toInt_positive hl, toInt_negative hr]
      exact iff_of_true rfl (by omega)
    | false =>
      rw [toInt_positive hl, toInt_positive hr]
      exact (gtDigits_iff lhs.trimmed rhs.trimmed).trans (by omega)

theorem lt_iff {lhs rhs : Rep} : lt lhs rhs = true ↔ lhs.toInt < rhs.toInt := by
  rw [lt_eq_gt, gt_iff]

theorem ge_iff {lhs rhs : Rep} : ge lhs rhs = true ↔ rhs.toInt ≤ lhs.toInt := by
  rw [ge, Bool.or_eq_true, gt_iff, decide_eq_true_eq, le_iff_lt_or_eq]
  exact or_congr_right ⟨fun h => by rw [h], fun h => toInt_inj h.symm⟩

/-- `sub`. The larger number comes first, so that `long_sub` stays inside the deque. -/
def subDigits (lhs rhs : Rep) (h : BigEndian.value rhs.value < BigEndian.value lhs.value) :
    Bytes :=
  if rhs.value = [] then lhs.value
  else if lhs.value = [] then rhs.value
  else if lhs = rhs then []
  else (longSub lhs.value rhs.value).get (by
    obtain ⟨out, hout, -⟩ := longSub_spec lhs.trimmed rhs.trimmed
      ((gtDigits_iff lhs.trimmed rhs.trimmed).mpr h)
    rw [hout]
    rfl)

def shiftLeft (n : Rep) (shift : Nat) : Rep := trim n.negative (Integer.shiftLeft n.value shift)

def add (lhs rhs : Rep) : Rep :=
  if rhs.value = [] then lhs
  else if lhs.value = [] then rhs
  else if h : gtDigits lhs.value rhs.value then
    trim lhs.negative (if lhs.negative = rhs.negative then addDigits lhs.value rhs.value
      else subDigits lhs rhs ((gtDigits_iff lhs.trimmed rhs.trimmed).mp h))
  else if h : ltDigits lhs.value rhs.value then
    trim rhs.negative (if lhs.negative = rhs.negative then addDigits rhs.value lhs.value
      else subDigits rhs lhs ((ltDigits_iff lhs.trimmed rhs.trimmed).mp h))
  else if lhs.negative = rhs.negative then lhs.shiftLeft 1
  else ofZ 4 0

def sub (lhs rhs : Rep) : Rep :=
  if h : gtDigits lhs.value rhs.value then
    trim lhs.negative (if lhs.negative = rhs.negative then
        subDigits lhs rhs ((gtDigits_iff lhs.trimmed rhs.trimmed).mp h)
      else addDigits lhs.value rhs.value)
  else if h : ltDigits lhs.value rhs.value then
    match lhs.negative, rhs.negative with
    | true, true => trim false (subDigits rhs lhs ((ltDigits_iff lhs.trimmed rhs.trimmed).mp h))
    | true, false => trim true (addDigits rhs.value lhs.value)
    | false, true => trim false (addDigits lhs.value rhs.value)
    | false, false => trim true (subDigits rhs lhs ((ltDigits_iff lhs.trimmed rhs.trimmed).mp h))
  else if lhs.negative = rhs.negative then ofZ 4 0
  else lhs.shiftLeft 1

theorem value_subDigits {lhs rhs : Rep}
    (h : BigEndian.value rhs.value < BigEndian.value lhs.value) :
    BigEndian.value (subDigits lhs rhs h) =
      BigEndian.value lhs.value - BigEndian.value rhs.value := by
  rw [subDigits]
  split_ifs with hr hl heq
  · rw [hr]
    rfl
  · rw [hl] at h
    cases h
  · rw [heq] at h
    exact absurd h (Nat.lt_irrefl _)
  · obtain ⟨out, hout, hvalue⟩ := longSub_spec lhs.trimmed rhs.trimmed
      ((gtDigits_iff lhs.trimmed rhs.trimmed).mpr h)
    simp only [hout, Option.get_some]
    exact hvalue

theorem toInt_shiftLeft (n : Rep) (shift : Nat) :
    (n.shiftLeft shift).toInt = signed n.negative (BigEndian.value n.value <<< shift) := by
  rw [shiftLeft, toInt_trim, value_shiftLeft, Nat.shiftLeft_eq]

theorem toInt_zero : (ofZ 4 0).toInt = 0 := toInt_ofZ (by decide)

theorem toInt_add (lhs rhs : Rep) : (lhs.add rhs).toInt = Integer.add lhs.toInt rhs.toInt := by
  have hgt := gtDigits_iff lhs.trimmed rhs.trimmed
  have hlt := ltDigits_iff lhs.trimmed rhs.trimmed
  simp only [Integer.add, toInt_eq_zero_iff, natAbs_toInt, sign_toInt, gt_iff_lt, ← hgt, ← hlt]
  rw [add]
  split_ifs with hr hl h hs h' hs' hs
  · rfl
  · rfl
  · rw [toInt_trim, value_addDigits]
  · rw [toInt_trim, value_subDigits]
  · rw [toInt_trim, value_addDigits]
  · rw [toInt_trim, value_subDigits]
  · exact toInt_shiftLeft lhs 1
  · exact toInt_zero

theorem toInt_sub (lhs rhs : Rep) : (lhs.sub rhs).toInt = Integer.sub lhs.toInt rhs.toInt := by
  have hgt := gtDigits_iff lhs.trimmed rhs.trimmed
  have hlt := ltDigits_iff lhs.trimmed rhs.trimmed
  simp only [Integer.sub, natAbs_toInt, sign_toInt, gt_iff_lt, ← hgt, ← hlt]
  rw [sub]
  split_ifs with h hs h' hs'
  · rw [toInt_trim, value_subDigits]
  · rw [toInt_trim, value_addDigits]
  · cases lhs.negative <;> cases rhs.negative <;>
      simp only [toInt_trim, value_addDigits, value_subDigits]
  · exact toInt_zero
  · exact toInt_shiftLeft lhs 1

end Rep

end MxSdk.Integer
