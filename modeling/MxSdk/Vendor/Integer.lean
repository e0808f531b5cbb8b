import MxSdk.Basic
import MxSdk.Lib.Decimal

/-! The string constructor of the vendored `integer` for the bases 2 to 16. Its
digits are accumulated exactly, zero has no sign, and the empty string is zero. -/

namespace MxSdk.Integer
open Decimal

/-- The digit of `std::tolower(c)`, decimal or a letter up to `f`. -/
def digit (c : UInt8) : Option Nat :=
  if isDigit c then some (c.toNat - 48)
  else if chr 'a' ≤ c ∧ c ≤ chr 'f' then some (c.toNat - 87)
  else if chr 'A' ≤ c ∧ c ≤ chr 'F' then some (c.toNat - 55)
  else none

def notADigit (base : Nat) (c : UInt8) : Exception :=
  .runtimeError (ascii "Error: Not a digit in base " ++ decimal base ++ ascii ": '" ++ [c] ++
    ascii "'")

def accumulate (base : Nat) (n : Nat) (c : UInt8) : Except Exception Nat :=
  match digit c with
  | none => throw (notADigit base c)
  | some d => if base ≤ d then throw (notADigit base c) else .ok (n * base + d)

def parse (str : Bytes) (base : Nat) : Except Exception Int :=
  match str with
  | [] => .ok 0
  | c :: digits =>
    if c = chr '-' then
      if digits = [] then throw (.runtimeError (ascii "Error: Input string is too short"))
      else do
        let n ← digits.foldlM (accumulate base) 0
        .ok (-n)
    else do
      let n ← (c :: digits).foldlM (accumulate base) 0
      .ok n

theorem digit_of_isDigit {c : UInt8} (h : isDigit c = true) : digit c = some (digitValue c) := by
  rw [digit, if_pos h]
  rfl

theorem accumulate_digit {c : UInt8} (h : isDigit c = true) (n : Nat) :
    accumulate 10 n c = .ok (10 * n + digitValue c) := by
  have hlt : digitValue c < 10 := by
    have := isDigit_iff.mp h
    rw [digitValue]
    omega
  rw [accumulate, digit_of_isDigit h]
  simp only [Nat.not_le.mpr hlt, if_false, Nat.mul_comm]

theorem accumulate_other {c : UInt8} (h : isDigit c = false) (n : Nat) :
    accumulate 10 n c = .error (notADigit 10 c) := by
  have all : ∀ c, isDigit c = false → ∀ d ∈ (digit c).toList, 10 ≤ d :=
    forall_byte (by decide +kernel)
  have hc := all c h
  rw [accumulate]
  cases hd : digit c with
  | none => rfl
  | some d =>
    rw [hd] at hc
    exact if_pos (hc d (by simp))

theorem foldlM_digits {s : Bytes} (h : ∀ c ∈ s, isDigit c = true) (n : Nat) :
    s.foldlM (accumulate 10) n = .ok (s.foldl (fun v b => 10 * v + digitValue b) n) := by
  induction s generalizing n with
  | nil => rfl
  | cons c s ih =>
    rw [List.foldlM_cons, accumulate_digit (h c (by simp))]
    exact ih (fun b hb => h b (by simp [hb])) _

theorem parse_digits {s : Bytes} (h : ∀ c ∈ s, isDigit c = true) : parse s 10 = .ok (value s) := by
  cases s with
  | nil => rfl
  | cons c s =>
    have hc : c ≠ chr '-' := by
      rintro rfl
      have := h _ List.mem_cons_self
      cases this
    rw [parse, if_neg hc, foldlM_digits h]
    rfl

theorem digits_of_foldlM {s : Bytes} {n m : Nat} (h : s.foldlM (accumulate 10) n = .ok m) :
    ∀ c ∈ s, isDigit c = true := by
  induction s generalizing n with
  | nil => exact fun c hc => absurd hc List.not_mem_nil
  | cons b s ih =>
    cases hb : isDigit b with
    | false =>
      rw [List.foldlM_cons, accumulate_other hb] at h
      cases h
    | true =>
      rw [List.foldlM_cons, accumulate_digit hb] at h
      intro c hc
      rcases List.mem_cons.mp hc with rfl | hc
      · exact hb
      · exact ih h c hc

theorem parse_minus {s : Bytes} (hne : s ≠ []) (h : ∀ c ∈ s, isDigit c = true) :
    parse (chr '-' :: s) 10 = .ok (-(value s : Int)) := by
  rw [parse, if_pos rfl, if_neg hne, foldlM_digits h]
  rfl

/-- What base ten accepts is digits, after at most one minus sign. -/
theorem parse_ok_iff {s : Bytes} {z : Int} : parse s 10 = .ok z ↔
    ((∀ c ∈ s, isDigit c = true) ∧ z = value s) ∨
      ∃ t, s = chr '-' :: t ∧ t ≠ [] ∧ (∀ c ∈ t, isDigit c = true) ∧ z = -(value t : Int) := by
  constructor
  · intro h
    cases s with
    | nil => exact .inl ⟨nofun, (Except.ok.inj h).symm⟩
    | cons b t =>
      rw [parse] at h
      split at h
      · rename_i hb
        split at h
        · cases h
        · rename_i hne
          obtain ⟨n, hn, -⟩ := bind_eq_ok h
          have hdigits := digits_of_foldlM hn
          rw [foldlM_digits hdigits] at h
          exact .inr ⟨t, by rw [hb], hne, hdigits, (Except.ok.inj h).symm⟩
      · obtain ⟨n, hn, -⟩ := bind_eq_ok h
        have hdigits := digits_of_foldlM hn
        rw [foldlM_digits hdigits] at h
        exact .inl ⟨hdigits, (Except.ok.inj h).symm⟩
  · rintro (⟨hdigits, rfl⟩ | ⟨t, rfl, hne, hdigits, rfl⟩)
    · exact parse_digits hdigits
    · exact parse_minus hne hdigits

theorem parse_ok_ascii {s : Bytes} {z : Int} (h : parse s 10 = .ok z) : ∀ c ∈ s, c ≤ 0x7f := by
  have hdigit {c : UInt8} (hc : isDigit c = true) : c ≤ 0x7f := by
    have hn := isDigit_iff.mp hc
    rw [UInt8.le_iff_toNat_le]
    show c.toNat ≤ 127
    omega
  intro c hc
  rcases parse_ok_iff.mp h with ⟨hdigits, -⟩ | ⟨t, rfl, -, hdigits, -⟩
  · exact hdigit (hdigits c hc)
  · rcases List.mem_cons.mp hc with rfl | hc
    · decide
    · exact hdigit (hdigits c hc)

end MxSdk.Integer
