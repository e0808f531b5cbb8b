import Mathlib.Data.List.TakeWhile
import Mathlib.Data.Nat.Digits.Lemmas

/-! Decimal numerals as ASCII text: the numeral of a number, the number a digit
string denotes, and the two facts that make a numeral usable inside a larger
text. A positive numeral has no leading zero, and a numeral followed by as many
bytes as it announces can be read back without a separator. -/

namespace MxSdk.Decimal

def zero : UInt8 := 48

abbrev isDigit (b : UInt8) : Bool := 48 ≤ b && b ≤ 57

def digitValue (b : UInt8) : Nat := b.toNat - 48

/-- What a digit string denotes, most significant digit first. -/
def value (s : List UInt8) : Nat := s.foldl (fun v b => 10 * v + digitValue b) 0

def decimal (n : Nat) : List UInt8 :=
  if n = 0 then [zero] else ((Nat.digits 10 n).map fun d => zero + UInt8.ofNat d).reverse

theorem isDigit_iff {b : UInt8} : isDigit b = true ↔ 48 ≤ b.toNat ∧ b.toNat ≤ 57 := by
  simp [isDigit, UInt8.le_iff_toNat_le]

theorem toNat_digit {d : Nat} (h : d < 10) : (zero + UInt8.ofNat d).toNat = 48 + d := by
  simp [zero, UInt8.toNat_add]
  omega

theorem decimal_isDigit {n : Nat} {b : UInt8} (h : b ∈ decimal n) : isDigit b = true := by
  unfold decimal at h
  split at h
  · rw [List.mem_singleton.mp h]
    rfl
  · simp only [List.mem_reverse, List.mem_map] at h
    obtain ⟨d, hd, rfl⟩ := h
    have hlt := Nat.digits_lt_base (by decide) hd
    rw [isDigit_iff, toNat_digit hlt]
    omega

theorem decimal_ne_nil (n : Nat) : decimal n ≠ [] := by
  unfold decimal
  split
  · simp
  · simpa [Nat.digits_eq_nil_iff_eq_zero]

theorem length_decimal (n : Nat) : (decimal n).length = max 1 (Nat.digits 10 n).length := by
  unfold decimal
  split
  · simp [*]
  · have h := List.length_pos_iff.mpr (Nat.digits_ne_nil_iff_ne_zero (b := 10).mpr ‹n ≠ 0›)
    simp
    omega

theorem length_decimal_mono {m n : Nat} (h : m ≤ n) : (decimal m).length ≤ (decimal n).length := by
  have hd := Nat.le_length_digits_le 10 m n h
  rw [length_decimal, length_decimal]
  omega

theorem value_append_singleton (s : List UInt8) (b : UInt8) :
    value (s ++ [b]) = 10 * value s + digitValue b := by
  simp [value, List.foldl_append]

theorem value_reverse_digits (ds : List Nat) (h : ∀ d ∈ ds, d < 10) :
    value (ds.map fun d => zero + UInt8.ofNat d).reverse = Nat.ofDigits 10 ds := by
  induction ds with
  | nil => rfl
  | cons d ds ih =>
    rw [List.map_cons, List.reverse_cons, value_append_singleton, Nat.ofDigits_cons,
      ih fun e he => h e (by simp [he]), digitValue, toNat_digit (h d (by simp))]
    simp
    omega

@[simp] theorem value_decimal (n : Nat) : value (decimal n) = n := by
  unfold decimal
  split
  · simp [value, digitValue, zero, *]
  · rw [value_reverse_digits _ fun d hd => Nat.digits_lt_base (by decide) hd,
      Nat.ofDigits_digits]

theorem decimal_step {n : Nat} (h : 10 ≤ n) :
    decimal n = decimal (n / 10) ++ [zero + UInt8.ofNat (n % 10)] := by
  rw [decimal, if_neg (by omega), decimal, if_neg (by omega),
    Nat.digits_def' (by decide) (by omega), List.map_cons, List.reverse_cons]

theorem decimal_digit {n : Nat} (h : n < 10) : decimal n = [zero + UInt8.ofNat n] := by
  by_cases hn : n = 0
  · rw [hn]
    rfl
  · rw [decimal, if_neg hn, Nat.digits_of_lt 10 n hn h]
    rfl

theorem decimal_head {n : Nat} (hn : n ≠ 0) {b : UInt8} {s : List UInt8}
    (h : decimal n = b :: s) : b ≠ zero := by
  have hne : Nat.digits 10 n ≠ [] := Nat.digits_ne_nil_iff_ne_zero.mpr hn
  have hlast : (Nat.digits 10 n).getLast hne ≠ 0 := Nat.getLast_digit_ne_zero 10 hn
  have hlt := Nat.digits_lt_base (by decide) (List.getLast_mem hne)
  have hb : b = zero + UInt8.ofNat ((Nat.digits 10 n).getLast hne) := by
    have hhead := congrArg List.head? h
    rw [decimal, if_neg hn, List.head?_reverse, List.getLast?_map,
      List.getLast?_eq_getLast_of_ne_nil hne] at hhead
    simpa using hhead.symm
  intro hz
  have hnat := congrArg UInt8.toNat (hb.symm.trans hz)
  rw [toNat_digit hlt] at hnat
  simp [zero] at hnat
  exact hlast hnat

/-- A length written in front of the bytes it counts needs no separator, although
the bytes may begin with digits: a longer announced length makes a longer text. -/
theorem decimal_append_inj {s t : List UInt8}
    (h : decimal s.length ++ s = decimal t.length ++ t) : s = t := by
  have hlen := congrArg List.length h
  simp only [List.length_append] at hlen
  have heq : s.length = t.length := by
    rcases lt_trichotomy s.length t.length with hlt | heq | hgt
    · have := length_decimal_mono hlt.le
      omega
    · exact heq
    · have := length_decimal_mono hgt.le
      omega
  exact (List.append_inj h (by rw [heq])).2

@[simp] theorem value_nil : value [] = 0 := rfl

theorem value_append (s t : List UInt8) : value (s ++ t) = value s * 10 ^ t.length + value t := by
  induction t using List.reverseRecOn with
  | nil => simp
  | append_singleton t b ih =>
    rw [← List.append_assoc, value_append_singleton, ih, value_append_singleton,
      List.length_append, List.length_singleton, pow_succ]
    ring

@[simp] theorem value_zeros (n : Nat) : value (List.replicate n zero) = 0 := by
  induction n with
  | zero => rfl
  | succ n ih => rw [List.replicate_succ', value_append_singleton, ih]; rfl

theorem zeros_isDigit {n : Nat} {b : UInt8} (h : b ∈ List.replicate n zero) : isDigit b = true := by
  rw [List.eq_of_mem_replicate h]
  rfl

theorem value_cons_zero (s : List UInt8) : value (zero :: s) = value s := by
  rw [← List.singleton_append, value_append, show [zero] = List.replicate 1 zero from rfl,
    value_zeros, Nat.zero_mul, Nat.zero_add]

theorem digitValue_lt {b : UInt8} (h : isDigit b = true) : digitValue b < 10 := by
  have := isDigit_iff.mp h
  rw [digitValue]
  omega

theorem digit_digitValue {b : UInt8} (h : isDigit b = true) :
    zero + UInt8.ofNat (digitValue b) = b := by
  have hb := isDigit_iff.mp h
  rw [← UInt8.toNat_inj, toNat_digit (digitValue_lt h), digitValue]
  omega

theorem value_lt {s : List UInt8} (h : ∀ b ∈ s, isDigit b = true) : value s < 10 ^ s.length := by
  induction s using List.reverseRecOn with
  | nil => decide
  | append_singleton s b ih =>
    have hs := ih fun c hc => h c (by simp [hc])
    have hb := digitValue_lt (h b (by simp))
    rw [value_append_singleton, List.length_append, List.length_singleton, pow_succ]
    omega

theorem value_append_zeros (s : List UInt8) (n : Nat) :
    value (s ++ List.replicate n zero) = value s * 10 ^ n := by
  rw [value_append, value_zeros, List.length_replicate, Nat.add_zero]

theorem value_take {s : List UInt8} (h : ∀ b ∈ s, isDigit b = true) (n : Nat) :
    value (s.take n) = value s / 10 ^ (s.length - n) := by
  have hlt : value (s.drop n) < 10 ^ (s.length - n) := by
    rw [← List.length_drop]
    exact value_lt fun b hb => h b (List.mem_of_mem_drop hb)
  conv_rhs => rw [← List.take_append_drop n s, value_append, List.length_drop]
  rw [Nat.mul_comm, List.take_append_drop, Nat.mul_add_div (by positivity), Nat.div_eq_of_lt hlt,
    Nat.add_zero]

structure IsNumeral (s : List UInt8) : Prop where
  digits : ∀ b ∈ s, isDigit b = true
  ne_nil : s ≠ []
  head : ∀ t, s = zero :: t → t = []

theorem isNumeral_decimal (n : Nat) : IsNumeral (decimal n) where
  digits _ := decimal_isDigit
  ne_nil := decimal_ne_nil n
  head t h := by
    by_cases hn : n = 0
    · rw [hn] at h
      exact (List.cons.inj h).2.symm
    · exact absurd rfl (decimal_head hn h)

theorem decimal_value {s : List UInt8} (h : IsNumeral s) : decimal (value s) = s := by
  induction s using List.reverseRecOn with
  | nil => exact absurd rfl h.ne_nil
  | append_singleton s b ih =>
    have hb : isDigit b = true := h.digits b (by simp)
    have hlt := digitValue_lt hb
    rw [value_append_singleton]
    cases s with
    | nil => rw [value_nil, Nat.mul_zero, Nat.zero_add, decimal_digit hlt, digit_digitValue hb]; rfl
    | cons c s =>
      have hc : c ≠ zero := by
        rintro rfl
        simpa using h.head (s ++ [b]) rfl
      have hs : IsNumeral (c :: s) :=
        ⟨fun d hd => h.digits d (List.mem_append_left _ hd), List.cons_ne_nil c s,
          fun t ht => absurd (List.cons.inj ht).1 hc⟩
      have hpos : value (c :: s) ≠ 0 := by
        intro hz
        have hdec := ih hs
        rw [hz] at hdec
        exact hc (List.cons.inj hdec).1.symm
      rw [decimal_step (by omega), show (10 * value (c :: s) + digitValue b) / 10 = value (c :: s) by
        omega, show (10 * value (c :: s) + digitValue b) % 10 = digitValue b by omega, ih hs,
        digit_digitValue hb]

theorem length_decimal_le {n k : Nat} (hk : 0 < k) (h : n < 10 ^ k) : (decimal n).length ≤ k := by
  rw [length_decimal]
  refine max_le hk ?_
  by_cases hn : n = 0
  · simp [hn]
  · have hpow : 10 ^ (Nat.digits 10 n).length < 10 ^ (k + 1) := by
      have := Nat.base_pow_length_digits_le 10 n (by decide) hn
      rw [pow_succ]
      omega
    exact Nat.lt_succ_iff.mp ((Nat.pow_lt_pow_iff_right (by decide)).mp hpow)

def BeginsNonzero (s : List UInt8) : Prop := ∃ b t, s = b :: t ∧ b ≠ zero

theorem beginsNonzero_append {s t : List UInt8} (h : BeginsNonzero s) : BeginsNonzero (s ++ t) := by
  obtain ⟨b, u, rfl, hb⟩ := h
  exact ⟨b, u ++ t, rfl, hb⟩

theorem isNumeral_iff_begins {s : List UInt8} (h : ∀ b ∈ s, isDigit b = true) :
    IsNumeral s ↔ BeginsNonzero s ∨ s = [zero] := by
  constructor
  · intro hs
    obtain ⟨b, t, rfl⟩ := List.exists_cons_of_ne_nil hs.ne_nil
    by_cases hb : b = zero
    · rw [hb, hs.head t (by rw [hb])]
      exact .inr rfl
    · exact .inl ⟨b, t, rfl, hb⟩
  · rintro (⟨b, t, rfl, hb⟩ | rfl)
    · exact ⟨h, List.cons_ne_nil b t, fun u hu => absurd (List.cons.inj hu).1 hb⟩
    · exact ⟨h, List.cons_ne_nil _ _, fun u hu => (List.cons.inj hu).2.symm⟩

def significant (s : List UInt8) : List UInt8 := s.dropWhile (· = zero)

theorem value_significant (s : List UInt8) : value (significant s) = value s := by
  induction s with
  | nil => rfl
  | cons b s ih =>
    rw [significant, List.dropWhile_cons]
    split
    · rename_i hb
      rw [of_decide_eq_true hb, value_cons_zero]
      exact ih
    · rfl

theorem significant_eq {s : List UInt8} (h : ∀ b ∈ s, isDigit b = true) :
    significant s = if value s = 0 then [] else decimal (value s) := by
  have hsub : ∀ b ∈ significant s, isDigit b = true := fun b hb =>
    h b ((List.dropWhile_suffix _).subset hb)
  cases hsig : significant s with
  | nil =>
    have hval := value_significant s
    rw [hsig] at hval
    rw [← hval]
    rfl
  | cons b t =>
    have hb : b ≠ zero := by
      intro hb
      have hhead := List.head?_dropWhile_not (fun c : UInt8 => decide (c = zero)) s
      rw [← significant, hsig, hb] at hhead
      simp at hhead
    have hnum : IsNumeral (b :: t) :=
      ⟨hsig ▸ hsub, List.cons_ne_nil b t, fun u hu => absurd (List.cons.inj hu).1 hb⟩
    have hdec := decimal_value hnum
    rw [← hsig, value_significant, hsig] at hdec
    rw [if_neg, hdec]
    intro hz
    rw [hz] at hdec
    exact hb (List.cons.inj hdec).1.symm

theorem value_eq_zero_iff {s : List UInt8} (h : ∀ b ∈ s, isDigit b = true) :
    value s = 0 ↔ ∀ b ∈ s, b = zero := by
  rw [← value_significant]
  constructor
  · intro hz b hb
    rw [value_significant] at hz
    have hnil := significant_eq h
    rw [if_pos hz, significant, List.dropWhile_eq_nil_iff] at hnil
    exact of_decide_eq_true (hnil b hb)
  · intro hall
    rw [significant, List.dropWhile_eq_nil_iff.mpr fun b hb => decide_eq_true (hall b hb), value_nil]

theorem significant_eq_iff {s t : List UInt8} (hs : ∀ b ∈ s, isDigit b = true)
    (ht : ∀ b ∈ t, isDigit b = true) : significant s = significant t ↔ value s = value t := by
  constructor
  · intro h
    rw [← value_significant s, h, value_significant]
  · intro h
    rw [significant_eq hs, significant_eq ht, h]

end MxSdk.Decimal
