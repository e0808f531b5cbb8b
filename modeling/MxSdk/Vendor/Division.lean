import Mathlib.Data.Nat.Digits.Lemmas
import MxSdk.Vendor.Integer

/-! Division of the vendored `integer`, bit by bit from the top, and the digits it
writes in a base from 2 to 16. The digits of the representation are left out: what is
divided here are the numbers they stand for. -/

namespace MxSdk.Integer

/-! `non_recursive_divmod`. -/

/-- One turn of the loop, at the bit `x - 1` of the dividend. -/
def divmodStep (lhs rhs x : Nat) (qr : Nat × Nat) : Nat × Nat :=
  let first := qr.1 <<< 1
  let second := qr.2 <<< 1
  let second := if lhs.testBit (x - 1) then second + 1 else second
  if rhs ≤ second then (first + 1, second - rhs) else (first, second)

def divmodLoop (lhs rhs : Nat) : Nat → Nat × Nat → Nat × Nat
  | 0, qr => qr
  | x + 1, qr => divmodLoop lhs rhs x (divmodStep lhs rhs (x + 1) qr)

def bits (n : Nat) : Nat := if n = 0 then 0 else n.log2 + 1

def nonRecursiveDivmod (lhs rhs : Nat) : Nat × Nat := divmodLoop lhs rhs (bits lhs) (0, 0)

/-- `qr` divides the bits of `lhs` from `x` upwards. -/
structure Divides (lhs rhs x : Nat) (qr : Nat × Nat) : Prop where
  eq : lhs / 2 ^ x = qr.1 * rhs + qr.2
  lt : qr.2 < rhs

theorem div_two_pow_succ (n x : Nat) :
    n / 2 ^ x = 2 * (n / 2 ^ (x + 1)) + if n.testBit x then 1 else 0 := by
  have hdiv : n / 2 ^ x / 2 = n / 2 ^ (x + 1) := by rw [Nat.div_div_eq_div_mul, pow_succ]
  have hbit : (if n.testBit x then 1 else 0) = n / 2 ^ x % 2 := by
    rw [Nat.testBit_eq_decide_div_mod_eq]
    rcases Nat.mod_two_eq_zero_or_one (n / 2 ^ x) with h | h <;> simp [h]
  rw [hbit, ← hdiv]
  omega

theorem Divides.step {lhs rhs x : Nat} {qr : Nat × Nat} (h : Divides lhs rhs (x + 1) qr) :
    Divides lhs rhs x (divmodStep lhs rhs (x + 1) qr) := by
  obtain ⟨q, r⟩ := qr
  obtain ⟨heq, hlt⟩ := h
  simp only at heq hlt
  have htop := div_two_pow_succ lhs x
  rw [heq] at htop
  simp only [divmodStep, Nat.add_sub_cancel, Nat.shiftLeft_eq, pow_one]
  generalize hs : (if lhs.testBit x then r * 2 + 1 else r * 2) = second
  have hsecond : second = 2 * r + if lhs.testBit x then 1 else 0 := by
    rw [← hs]
    split <;> omega
  have hsmall : second < 2 * rhs := by
    rw [hsecond]
    split <;> omega
  have htotal : lhs / 2 ^ x = q * 2 * rhs + second := by
    rw [htop, hsecond]
    ring
  split
  · rename_i hle
    refine ⟨?_, by simp only; omega⟩
    simp only
    rw [htotal, Nat.add_mul, Nat.one_mul]
    omega
  · exact ⟨htotal, by simp only; omega⟩

theorem Divides.loop {lhs rhs : Nat} {x : Nat} {qr : Nat × Nat} (h : Divides lhs rhs x qr) :
    Divides lhs rhs 0 (divmodLoop lhs rhs x qr) := by
  induction x generalizing qr with
  | zero => exact h
  | succ x ih => exact ih h.step

theorem lt_two_pow_bits (n : Nat) : n < 2 ^ bits n := by
  rw [bits]
  split
  · omega
  · exact Nat.lt_log2_self

theorem nonRecursiveDivmod_eq (lhs : Nat) {rhs : Nat} (h : 0 < rhs) :
    nonRecursiveDivmod lhs rhs = (lhs / rhs, lhs % rhs) := by
  have hstart : Divides lhs rhs (bits lhs) (0, 0) :=
    ⟨by simp [Nat.div_eq_of_lt (lt_two_pow_bits lhs)], h⟩
  obtain ⟨heq, hlt⟩ := hstart.loop
  rw [pow_zero, Nat.div_one] at heq
  rw [nonRecursiveDivmod]
  generalize divmodLoop lhs rhs (bits lhs) (0, 0) = qr at heq hlt
  obtain ⟨q, r⟩ := qr
  simp only at heq hlt
  rw [heq, Nat.mul_comm q, Nat.mul_add_div h, Nat.mul_add_mod, Nat.div_eq_of_lt hlt,
    Nat.mod_eq_of_lt hlt, Nat.add_zero]

/-- `dm`, which ignores the signs. -/
def dm (lhs rhs : Nat) : Except Exception (Nat × Nat) :=
  if rhs = 0 then throw (.domainError (ascii "Error: division or modulus by 0"))
  else if rhs = 1 then .ok (lhs, 0)
  else if lhs = rhs then .ok (1, 0)
  else if lhs = 0 then .ok (0, 0)
  else if lhs < rhs then .ok (0, lhs)
  else .ok (nonRecursiveDivmod lhs rhs)

theorem dm_eq (lhs : Nat) {rhs : Nat} (h : 0 < rhs) : dm lhs rhs = .ok (lhs / rhs, lhs % rhs) := by
  rw [dm, if_neg (by omega)]
  split_ifs with hone heq hzero hlt
  · rw [hone, Nat.div_one, Nat.mod_one]
  · rw [heq, Nat.div_self h, Nat.mod_self]
  · rw [hzero, Nat.zero_div, Nat.zero_mod]
  · rw [Nat.div_eq_of_lt hlt, Nat.mod_eq_of_lt hlt]
  · rw [nonRecursiveDivmod_eq lhs h]

def divmod (lhs rhs : Int) : Except Exception (Int × Int) := do
  let out ← dm lhs.natAbs rhs.natAbs
  .ok (if (lhs < 0) ≠ (rhs < 0) then -out.1 else out.1, if lhs < 0 then -out.2 else out.2)

theorem divmod_natCast (lhs : Nat) {rhs : Nat} (h : 0 < rhs) :
    divmod lhs rhs = .ok ((lhs / rhs : Nat), (lhs % rhs : Nat)) := by
  have hneg (n : Nat) : ¬ (n : Int) < 0 := by omega
  rw [divmod, Int.natAbs_natCast, Int.natAbs_natCast, dm_eq lhs h]
  simp [hneg, bind, Except.bind]

def digits : Bytes := ascii "0123456789abcdef"

/-- The loop of `str`. Every turn but the last makes `rhs` smaller. -/
def strLoop (base : Nat) : Nat → Nat → Bytes → Except Exception Bytes
  | 0, _, out => .ok out
  | fuel + 1, rhs, out => do
    let qr ← dm rhs base
    let out := digits.getD qr.2 0 :: out
    if qr.1 = 0 then .ok out else strLoop base fuel qr.1 out

/-- `str(base)` without padding, in the bases up to 16. -/
def str (n : Int) (base : Nat) : Except Exception Bytes := do
  if 2 ≤ base ∧ base ≤ 16 then
    let out ← if n = 0 then .ok [Decimal.zero] else strLoop base n.natAbs n.natAbs []
    .ok (if n < 0 then chr '-' :: out else out)
  else throw (.runtimeError (ascii "Error: Cannot convert to base " ++ Decimal.decimal base))

def numeral (base n : Nat) : Bytes :=
  if n = 0 then [Decimal.zero] else ((Nat.digits base n).map fun d => digits.getD d 0).reverse

theorem strLoop_eq {base : Nat} (hbase : 2 ≤ base) {fuel n : Nat} (hn : 0 < n) (hfuel : n ≤ fuel)
    (out : Bytes) : strLoop base fuel n out =
      .ok (((Nat.digits base n).map fun d => digits.getD d 0).reverse ++ out) := by
  induction fuel generalizing n out with
  | zero => omega
  | succ fuel ih =>
    rw [strLoop, dm_eq n (by omega), Nat.digits_def' hbase hn]
    simp only [bind, Except.bind, List.map_cons, List.reverse_cons, List.append_assoc,
      List.singleton_append]
    split
    · rename_i hq
      rw [hq, Nat.digits_zero]
      rfl
    · rename_i hq
      have hlt := Nat.div_lt_self hn hbase
      rw [ih (Nat.pos_of_ne_zero hq) (by omega)]

theorem str_natCast (n : Nat) {base : Nat} (h : 2 ≤ base ∧ base ≤ 16) :
    str n base = .ok (numeral base n) := by
  have hneg : ¬ (n : Int) < 0 := by omega
  rw [str, if_pos h, numeral]
  by_cases hn : n = 0
  · simp [hn, bind, Except.bind]
  · have hz : ¬ (n : Int) = 0 := by omega
    rw [if_neg hz, if_neg hn, Int.natAbs_natCast, strLoop_eq h.1 (by omega) le_rfl,
      List.append_nil]
    simp only [bind, Except.bind, if_neg hneg]

theorem str_neg {n : Nat} (hn : 0 < n) {base : Nat} (h : 2 ≤ base ∧ base ≤ 16) :
    str (-n) base = .ok (chr '-' :: numeral base n) := by
  have hneg : -(n : Int) < 0 := by omega
  rw [str, if_pos h, numeral, if_neg (by omega), if_neg (by omega), Int.natAbs_neg,
    Int.natAbs_natCast, strLoop_eq h.1 hn le_rfl, List.append_nil]
  simp only [bind, Except.bind, if_pos hneg]

theorem numeral_ten (n : Nat) : numeral 10 n = Decimal.decimal n := by
  have hdigit : ∀ d < 10, digits.getD d 0 = Decimal.zero + UInt8.ofNat d := by decide +kernel
  rw [numeral, Decimal.decimal]
  split
  · rfl
  · congr 1
    exact List.map_congr_left fun d hd => hdigit d (Nat.digits_lt_base (by decide) hd)

end MxSdk.Integer
