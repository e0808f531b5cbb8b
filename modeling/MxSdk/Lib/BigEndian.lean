import Mathlib.Data.Nat.Digits.Lemmas

/-! Minimal big-endian bytes of a natural number. Zero is one zero byte, and the
bytes of any other number do not begin with a zero byte. -/

namespace MxSdk.BigEndian

def value (bs : List UInt8) : Nat := bs.foldl (fun v b => 256 * v + b.toNat) 0

def bytes (n : Nat) : List UInt8 :=
  if n = 0 then [0] else ((Nat.digits 256 n).map UInt8.ofNat).reverse

theorem bytes_step {n : Nat} (h : 256 ≤ n) :
    bytes n = bytes (n / 256) ++ [UInt8.ofNat (n % 256)] := by
  rw [bytes, if_neg (by omega), bytes, if_neg (by omega),
    Nat.digits_def' (by decide) (by omega), List.map_cons, List.reverse_cons]

theorem bytes_small {n : Nat} (h : n < 256) : bytes n = [UInt8.ofNat n] := by
  by_cases hn : n = 0
  · rw [hn]
    rfl
  · rw [bytes, if_neg hn, Nat.digits_of_lt 256 n hn h]
    rfl

theorem value_append_singleton (bs : List UInt8) (b : UInt8) :
    value (bs ++ [b]) = 256 * value bs + b.toNat := by
  rw [value, List.foldl_append]
  rfl

theorem value_lt (bs : List UInt8) : value bs < 256 ^ bs.length := by
  induction bs using List.reverseRecOn with
  | nil => exact Nat.one_pos
  | append_singleton bs b ih =>
    have hb : b.toNat < 256 := b.toNat_lt
    rw [value_append_singleton, List.length_append, List.length_singleton, Nat.pow_succ]
    omega

@[simp] theorem value_bytes (n : Nat) : value (bytes n) = n := by
  induction n using Nat.strong_induction_on with
  | _ n ih =>
    by_cases h : n < 256
    · rw [bytes_small h, ← List.nil_append [UInt8.ofNat n], value_append_singleton]
      simp only [value, List.foldl_nil, UInt8.toNat_ofNat']
      omega
    · rw [bytes_step (Nat.not_lt.mp h), value_append_singleton, ih (n / 256) (by omega)]
      simp only [UInt8.toNat_ofNat']
      omega

theorem bytes_inj {m n : Nat} (h : bytes m = bytes n) : m = n := by
  rw [← value_bytes m, h, value_bytes]

theorem value_append (as bs : List UInt8) :
    value (as ++ bs) = value as * 256 ^ bs.length + value bs := by
  induction bs using List.reverseRecOn with
  | nil => simp [value]
  | append_singleton bs b ih =>
    rw [← List.append_assoc, value_append_singleton, value_append_singleton, ih,
      List.length_append, List.length_singleton, Nat.pow_succ]
    ring

theorem value_cons (b : UInt8) (bs : List UInt8) :
    value (b :: bs) = b.toNat * 256 ^ bs.length + value bs := by
  have hone : value [b] = b.toNat := by simp [value]
  rw [← List.singleton_append, value_append, hone]

theorem value_reverse_cons (b : UInt8) (bs : List UInt8) :
    value (b :: bs).reverse = 256 * value bs.reverse + b.toNat := by
  rw [List.reverse_cons, value_append_singleton]

theorem value_replicate_zero (n : Nat) : value (List.replicate n 0) = 0 := by
  induction n with
  | zero => rfl
  | succ n ih => simp [List.replicate_succ, value_cons, ih]

theorem value_dropWhile_zero (bs : List UInt8) : value (bs.dropWhile (· = 0)) = value bs := by
  induction bs with
  | nil => rfl
  | cons b bs ih =>
    by_cases hb : b = 0
    · rw [List.dropWhile_cons_of_pos (by simp [hb]), ih, value_cons, hb]
      simp
    · rw [List.dropWhile_cons_of_neg (by simp [hb])]

/-- The bytes of a number, none for zero. -/
def Trimmed (bs : List UInt8) : Prop := bs.head? ≠ some 0

instance (bs : List UInt8) : Decidable (Trimmed bs) := inferInstanceAs (Decidable (_ ≠ _))

theorem trimmed_dropWhile (bs : List UInt8) : Trimmed (bs.dropWhile (· = 0)) := by
  induction bs with
  | nil => simp [Trimmed]
  | cons b bs ih =>
    by_cases hb : b = 0
    · rwa [List.dropWhile_cons_of_pos (by simp [hb])]
    · rw [List.dropWhile_cons_of_neg (by simp [hb])]
      simpa [Trimmed] using hb

theorem Trimmed.dropWhile {bs : List UInt8} (h : Trimmed bs) : bs.dropWhile (· = 0) = bs := by
  cases bs with
  | nil => rfl
  | cons b bs => exact List.dropWhile_cons_of_neg (by simpa [Trimmed] using h)

theorem Trimmed.pow_le {b : UInt8} {bs : List UInt8} (h : Trimmed (b :: bs)) :
    256 ^ bs.length ≤ value (b :: bs) := by
  have hb : b ≠ 0 := by simpa [Trimmed] using h
  have hpos : 0 < b.toNat := Nat.pos_of_ne_zero fun hzero => hb (UInt8.toNat_inj.mp hzero)
  rw [value_cons]
  exact (Nat.le_mul_of_pos_left _ hpos).trans (Nat.le_add_right _ _)

theorem Trimmed.value_eq_zero_iff {bs : List UInt8} (h : Trimmed bs) :
    value bs = 0 ↔ bs = [] := by
  constructor
  · intro hzero
    cases bs with
    | nil => rfl
    | cons b bs =>
      have hle := h.pow_le
      have hpos : 0 < 256 ^ bs.length := Nat.pow_pos (by decide)
      omega
  · rintro rfl
    rfl

theorem Trimmed.value_lt_of_length {as bs : List UInt8} (h : Trimmed bs)
    (hlen : as.length < bs.length) : value as < value bs := by
  cases bs with
  | nil => cases hlen
  | cons b bs =>
    calc value as < 256 ^ as.length := value_lt as
      _ ≤ 256 ^ bs.length := Nat.pow_le_pow_right (by decide) (Nat.lt_succ_iff.mp hlen)
      _ ≤ value (b :: bs) := h.pow_le

theorem value_lt_of_first {a b : UInt8} {as bs : List UInt8} (hlen : as.length = bs.length)
    (h : a < b) : value (a :: as) < value (b :: bs) := by
  have hab : a.toNat + 1 ≤ b.toNat := UInt8.lt_iff_toNat_lt.mp h
  calc value (a :: as) < (a.toNat + 1) * 256 ^ bs.length := by
        rw [value_cons, hlen, Nat.add_one_mul, ← hlen]
        exact Nat.add_lt_add_left (value_lt as) _
    _ ≤ b.toNat * 256 ^ bs.length := Nat.mul_le_mul_right _ hab
    _ ≤ value (b :: bs) := by
        rw [value_cons]
        exact Nat.le_add_right _ _

theorem eq_of_value_of_length {as bs : List UInt8} (hlen : as.length = bs.length)
    (h : value as = value bs) : as = bs := by
  induction as generalizing bs with
  | nil => exact (List.length_eq_zero_iff.mp hlen.symm).symm
  | cons a as ih =>
    cases bs with
    | nil => cases hlen
    | cons b bs =>
      have hrest : as.length = bs.length := Nat.succ.inj hlen
      have hnot {x y : UInt8} {xs ys : List UInt8} (hl : xs.length = ys.length)
          (hv : value (x :: xs) = value (y :: ys)) : ¬ x < y := fun hlt =>
        (value_lt_of_first hl hlt).ne hv
      have hab : a = b := by
        rcases Nat.lt_trichotomy a.toNat b.toNat with hlt | heq | hgt
        · exact absurd (UInt8.lt_iff_toNat_lt.mpr hlt) (hnot hrest h)
        · exact UInt8.toNat_inj.mp heq
        · exact absurd (UInt8.lt_iff_toNat_lt.mpr hgt) (hnot hrest.symm h.symm)
      rw [value_cons, value_cons, hab, hrest] at h
      rw [hab, ih hrest (Nat.add_left_cancel h)]

theorem Trimmed.eq_of_value {as bs : List UInt8} (ha : Trimmed as) (hb : Trimmed bs)
    (h : value as = value bs) : as = bs := by
  refine eq_of_value_of_length ?_ h
  rcases Nat.lt_trichotomy as.length bs.length with hlt | heq | hgt
  · exact absurd h (hb.value_lt_of_length hlt).ne
  · exact heq
  · exact absurd h (ha.value_lt_of_length hgt).ne'

theorem trimmed_bytes {n : Nat} (h : n ≠ 0) : Trimmed (bytes n) := by
  induction n using Nat.strong_induction_on with
  | _ n ih =>
    by_cases hn : n < 256
    · rw [bytes_small hn, Trimmed, List.head?_cons, Ne, Option.some.injEq]
      intro hzero
      have hnat := congrArg UInt8.toNat hzero
      rw [UInt8.toNat_ofNat', UInt8.toNat_zero] at hnat
      omega
    · have hrest := ih (n / 256) (by omega) (by omega)
      have hne : bytes (n / 256) ≠ [] := by
        intro hnil
        have hvalue := value_bytes (n / 256)
        rw [hnil, value, List.foldl_nil] at hvalue
        omega
      rw [bytes_step (Nat.not_lt.mp hn), Trimmed, List.head?_append_of_ne_nil _ hne]
      exact hrest

theorem Trimmed.bytes_value {bs : List UInt8} (h : Trimmed bs) (hne : bs ≠ []) :
    bytes (value bs) = bs :=
  (trimmed_bytes (mt h.value_eq_zero_iff.mp hne)).eq_of_value h (value_bytes _)

theorem testBit_value (bs : List UInt8) (i : Nat) :
    (value bs).testBit i = (bs.reverse.getD (i / 8) 0).toNat.testBit (i % 8) := by
  induction bs using List.reverseRecOn generalizing i with
  | nil => simp [value]
  | append_singleton bs b ih =>
    have hb : b.toNat < 2 ^ 8 := b.toNat_lt
    rw [value_append_singleton, show (256 : Nat) = 2 ^ 8 from rfl,
      Nat.testBit_two_pow_mul_add _ hb, List.reverse_append, List.reverse_singleton,
      List.singleton_append]
    by_cases hi : i < 8
    · rw [if_pos hi, Nat.div_eq_of_lt hi, Nat.mod_eq_of_lt hi, List.getD_cons_zero]
    · have hdiv : i / 8 = (i - 8) / 8 + 1 := by omega
      have hmod : i % 8 = (i - 8) % 8 := by omega
      rw [if_neg hi, hdiv, hmod, List.getD_cons_succ, ih]

end MxSdk.BigEndian
