import MxSdk.Internal.BigUIntNumber
import MxSdk.Lib.Expression
import MxSdk.Vendor.Arithmetic

/-! The operators of internal/biguint.cpp that compute a number, and expressions over
them. Each operator reads the texts of its operands as integers, and the text it writes
of the result goes through the constructor, which refuses a minus sign. -/

namespace MxSdk.BigUInt
open Decimal

def mul [FftMult] (a rhs : BigUInt) : Except Exception BigUInt := do
  let v1 ← Integer.parse a.value 10
  let v2 ← Integer.parse rhs.value 10
  let ret ← Integer.str (Integer.mul v1 v2) 10
  ofString ret

def div (a rhs : BigUInt) : Except Exception BigUInt := do .ok (← a.divmod rhs).1

def sub (a rhs : BigUInt) : Except Exception BigUInt := do
  let v1 ← Integer.parse a.value 10
  let v2 ← Integer.parse rhs.value 10
  let res := Integer.sub v1 v2
  ofString (← Integer.str res 10)

def add (a rhs : BigUInt) : Except Exception BigUInt := do
  let v1 ← Integer.parse a.value 10
  let v2 ← Integer.parse rhs.value 10
  let res := Integer.add v1 v2
  ofString (← Integer.str res 10)

def negativeValue (n : Nat) : Exception :=
  invalidValue (chr '-' :: decimal n) (Exception.invalidArgument errorMsgNegativeValue).what

theorem ofString_minus {n : Nat} (h : 0 < n) :
    ofString (chr '-' :: decimal n) = .error (negativeValue n) := by
  have hparse := Integer.parse_minus (decimal_ne_nil n) fun _ => decimal_isDigit
  rw [value_decimal] at hparse
  unfold ofString
  split
  · rename_i e he
    rw [hparse] at he
    cases he
  · rename_i z hz
    rw [hparse] at hz
    have hneg : z < 0 := by
      rw [← Except.ok.inj hz]
      omega
    rw [dif_pos hneg]
    rfl

def divisionByZero : Exception := .domainError (ascii "Error: division or modulus by 0")

theorem mul_eq [FftMult] (hfft : FftMult.Exact) (a b : BigUInt) :
    a.mul b = .ok (ofNat (a.toNat * b.toNat)) := by
  rw [mul, parse_value, parse_value]
  simp only [bind, Except.bind, Integer.mul_eq hfft, ← Int.natCast_mul, str_decimal,
    ofString_decimal]

theorem add_eq (a b : BigUInt) : a.add b = .ok (ofNat (a.toNat + b.toNat)) := by
  rw [add, parse_value, parse_value]
  simp only [bind, Except.bind, Integer.add_eq, ← Int.natCast_add, str_decimal, ofString_decimal]

theorem sub_eq (a b : BigUInt) : a.sub b =
    if a.toNat < b.toNat then .error (negativeValue (b.toNat - a.toNat))
    else .ok (ofNat (a.toNat - b.toNat)) := by
  rw [sub, parse_value, parse_value]
  simp only [bind, Except.bind, Integer.sub_eq]
  by_cases hlt : a.toNat < b.toNat
  · have hneg : (a.toNat : Int) - b.toNat = -((b.toNat - a.toNat : Nat) : Int) := by omega
    rw [if_pos hlt, hneg, Integer.str_neg (by omega) (by decide), Integer.numeral_ten]
    exact ofString_minus (by omega)
  · rw [if_neg hlt, ← Int.natCast_sub (Nat.not_lt.mp hlt), str_decimal]
    exact ofString_decimal _

theorem divmod_zero {a b : BigUInt} (h : b.toNat = 0) : a.divmod b = .error divisionByZero := by
  rw [divmod, parse_value, parse_value, h]
  rfl

theorem divmod_eq_ite (a b : BigUInt) : a.divmod b =
    if b.toNat = 0 then .error divisionByZero
    else .ok (ofNat (a.toNat / b.toNat), ofNat (a.toNat % b.toNat)) := by
  split
  · exact divmod_zero ‹_›
  · exact divmod_eq a (Nat.pos_of_ne_zero ‹_›)

/-- `/` is `divmod().first` with nothing added, and both are written in expressions. -/
inductive Operator where
  | mul
  | div
  | divmodFirst
  | divmodSecond
  | sub
  | add

namespace Operator

def apply [FftMult] : Operator → BigUInt → BigUInt → Except Exception BigUInt
  | mul, a, b => a.mul b
  | div, a, b => a.div b
  | divmodFirst, a, b => do .ok (← a.divmod b).1
  | divmodSecond, a, b => do .ok (← a.divmod b).2
  | sub, a, b => a.sub b
  | add, a, b => a.add b

def exact : Operator → Nat → Nat → Nat
  | mul, m, n => m * n
  | div, m, n | divmodFirst, m, n => m / n
  | divmodSecond, m, n => m % n
  | sub, m, n => m - n
  | add, m, n => m + n

def Undefined : Operator → Nat → Nat → Prop
  | div, _, n | divmodFirst, _, n | divmodSecond, _, n => n = 0
  | sub, m, n => m < n
  | mul, _, _ | add, _, _ => False

def checked (op : Operator) (m n : Nat) : Except Exception Nat :=
  match op with
  | mul | add => .ok (op.exact m n)
  | div | divmodFirst | divmodSecond =>
    if n = 0 then .error divisionByZero else .ok (op.exact m n)
  | sub => if m < n then .error (negativeValue (n - m)) else .ok (op.exact m n)

theorem checked_ok {op : Operator} {m n : Nat} (h : ¬ op.Undefined m n) :
    op.checked m n = .ok (op.exact m n) := by
  cases op with
  | mul | add => rfl
  | div | divmodFirst | divmodSecond | sub => exact if_neg h

theorem checked_error {op : Operator} {m n : Nat} (h : op.Undefined m n) :
    ∃ e, op.checked m n = .error e := by
  cases op with
  | mul | add => exact h.elim
  | div | divmodFirst | divmodSecond | sub => exact ⟨_, if_pos h⟩

/-- The operators look at the numbers of their operands only, and write the number of the
result. -/
theorem represents [FftMult] (hfft : FftMult.Exact) :
    Expression.Represents Operator.apply checked toNat ofNat := by
  refine ⟨fun op a b => ?_, toNat_ofNat⟩
  cases op with
  | mul => exact mul_eq hfft a b
  | add => exact add_eq a b
  | sub =>
    rw [apply, sub_eq, checked]
    split <;> rfl
  | div | divmodFirst =>
    show (do .ok (← a.divmod b).1) = _
    rw [divmod_eq_ite, checked]
    split <;> rfl
  | divmodSecond =>
    show (do .ok (← a.divmod b).2) = _
    rw [divmod_eq_ite, checked]
    split <;> rfl

end Operator

section Expressions

variable [FftMult] {ι : Type}

def evaluate (e : Expression ι Operator) (vars : ι → BigUInt) :
    Except Exception BigUInt × (ι → BigUInt) := (e.eval Operator.apply).run.run vars

def number (e : Expression ι Operator) (vars : ι → BigUInt) : Nat :=
  e.value Operator.exact (toNat ∘ vars)

def Faulty (e : Expression ι Operator) (vars : ι → BigUInt) : Prop :=
  e.Faulty Operator.Undefined Operator.exact (toNat ∘ vars)

/-- What a run does, by the numbers of the operands. -/
structure Exact (e : Expression ι Operator) (vars : ι → BigUInt) : Prop where
  throws : (∃ x, evaluate e vars = (.error x, vars)) ↔ Faulty e vars
  result : ¬ Faulty e vars →
    ∃ a, evaluate e vars = (.ok a, vars) ∧ a.value = decimal (number e vars)
  spelling : ∀ vars', toNat ∘ vars' = toNat ∘ vars → (evaluate e vars').1 = (evaluate e vars).1

theorem evaluate_apply (hfft : FftMult.Exact) (op : Operator) (lhs rhs : Expression ι Operator)
    (vars : ι → BigUInt) : evaluate (.apply op lhs rhs) vars =
      (((Expression.apply op lhs rhs).outcome Operator.checked (toNat ∘ vars)).map ofNat,
        vars) := by
  rw [evaluate, Expression.run_eval, Expression.outcome_apply (Operator.represents hfft)]

theorem exact_apply (hfft : FftMult.Exact) (op : Operator) (lhs rhs : Expression ι Operator)
    (vars : ι → BigUInt) : Exact (.apply op lhs rhs) vars := by
  have hrun := evaluate_apply hfft op lhs rhs
  have hok : ¬ Faulty (.apply op lhs rhs) vars →
      evaluate (.apply op lhs rhs) vars =
        (.ok (ofNat (number (.apply op lhs rhs) vars)), vars) := by
    intro hfaulty
    rw [hrun, Expression.outcome_ok (fun _ _ _ => Operator.checked_ok) hfaulty]
    rfl
  refine ⟨⟨fun ⟨x, hx⟩ => ?_, fun hfaulty => ?_⟩, fun hfaulty => ⟨_, hok hfaulty, rfl⟩, ?_⟩
  · by_contra hfaulty
    rw [hok hfaulty] at hx
    cases hx
  · obtain ⟨x, hx⟩ := Expression.outcome_error (fun _ _ _ => Operator.checked_ok)
      (fun _ _ _ => Operator.checked_error) hfaulty
    exact ⟨x, by rw [hrun, hx]; rfl⟩
  · intro vars' hvars
    rw [hrun, hrun, hvars]

end Expressions

theorem arithmetic_exact [FftMult] (hfft : FftMult.Exact) :
    (∀ {ι : Type} (op : Operator) (lhs rhs : Expression ι Operator) (vars : ι → BigUInt),
      Exact (.apply op lhs rhs) vars) ∧
    ∀ a b : BigUInt, ((∃ x, a.divmod b = .error x) ↔ b.toNat = 0) ∧
      (b.toNat ≠ 0 → ∃ q r, a.divmod b = .ok (q, r) ∧
        q.value = decimal (a.toNat / b.toNat) ∧ r.value = decimal (a.toNat % b.toNat) ∧
        a.toNat = q.toNat * b.toNat + r.toNat ∧ r.toNat < b.toNat) := by
  refine ⟨exact_apply hfft, fun a b => ?_⟩
  by_cases h : b.toNat = 0
  · exact ⟨⟨fun _ => h, fun _ => ⟨_, divmod_zero h⟩⟩, fun hne => absurd h hne⟩
  · have hpos := Nat.pos_of_ne_zero h
    refine ⟨⟨fun ⟨x, hx⟩ => ?_, fun hzero => absurd hzero h⟩, fun _ =>
      ⟨_, _, divmod_eq a hpos, rfl, rfl, ?_, ?_⟩⟩
    · rw [divmod_eq a hpos] at hx
      cases hx
    · rw [toNat_ofNat, toNat_ofNat]
      exact (Nat.div_add_mod' _ _).symm
    · rw [toNat_ofNat]
      exact Nat.mod_lt _ hpos

theorem arithmetic_exact_sevens :
    let vars : Bool → BigUInt := fun x =>
      if x then ⟨ascii "007", 7, rfl⟩ else ⟨ascii "-0", 0, rfl⟩
    ∃ a, @evaluate .long _ (.apply .mul (.apply .sub (.operand true) (.operand false))
      (.operand true)) vars = (.ok a, vars) ∧ a.value = ascii "49" := by
  intro vars
  let _ := FftMult.long
  have hexact := (arithmetic_exact fun _ _ => rfl).1 .mul
    (.apply .sub (.operand true) (.operand false)) (.operand true) vars
  have hdefined : ¬ (vars true).toNat < (vars false).toNat := by decide +kernel
  obtain ⟨a, ha, hvalue⟩ := hexact.result (by
    rintro ((h | h | h) | h | h)
    exacts [h, h, hdefined h, h, h])
  exact ⟨a, ha, hvalue.trans (by decide +kernel)⟩

end MxSdk.BigUInt
