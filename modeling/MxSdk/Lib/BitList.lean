import Mathlib.Data.Nat.Bitwise
import Mathlib.Data.List.Basic

/-! Fixed-width words as bit strings, most significant bit first. A loop that
regroups words of one width into words of another keeps a single fact: the words
written so far, followed by the pending low bits of its accumulator, spell the
bits of the words read so far. The rules below are what one turn of such a loop
uses, and what is left to conclude when it stops. -/

namespace MxSdk.BitList

/-- The low `w` bits of `n`. -/
def bits : (w n : Nat) → List Bool
  | 0, _ => []
  | w + 1, n => n.testBit w :: bits w n

@[simp] theorem length_bits (w n : Nat) : (bits w n).length = w := by
  induction w with
  | zero => rfl
  | succ w ih => simp [bits, ih]

theorem bits_eq_iff {w m n : Nat} :
    bits w m = bits w n ↔ ∀ i < w, m.testBit i = n.testBit i := by
  induction w with
  | zero => simp [bits]
  | succ w ih =>
    simp only [bits, List.cons.injEq, ih]
    constructor
    · rintro ⟨top, low⟩ i hi
      rcases Nat.lt_succ_iff_lt_or_eq.mp hi with h | rfl
      · exact low i h
      · exact top
    · exact fun h => ⟨h w (by omega), fun i hi => h i (by omega)⟩

theorem bits_add (a b n : Nat) : bits (a + b) n = bits a (n >>> b) ++ bits b n := by
  induction a with
  | zero => simp [bits]
  | succ a ih =>
    rw [Nat.add_right_comm, bits, bits, ih, Nat.testBit_shiftRight, Nat.add_comm b a]
    rfl

theorem bits_inj {w m n : Nat} (hm : m < 2 ^ w) (hn : n < 2 ^ w)
    (h : bits w m = bits w n) : m = n := by
  apply Nat.eq_of_testBit_eq
  intro i
  by_cases hi : i < w
  · exact bits_eq_iff.mp h i hi
  · have hw : 2 ^ w ≤ 2 ^ i := Nat.pow_le_pow_right (by decide) (by omega)
    rw [Nat.testBit_lt_two_pow (hm.trans_le hw), Nat.testBit_lt_two_pow (hn.trans_le hw)]

theorem bits_mod {w k : Nat} (h : w ≤ k) (n : Nat) : bits w (n % 2 ^ k) = bits w n := by
  rw [bits_eq_iff]
  intro i hi
  simp [Nat.testBit_mod_two_pow, show i < k by omega]

theorem bits_and {w k : Nat} (h : w ≤ k) (n : Nat) : bits w (n &&& (2 ^ k - 1)) = bits w n := by
  rw [Nat.and_two_pow_sub_one_eq_mod, bits_mod h]

theorem bits_zero (w : Nat) : bits w 0 = List.replicate w false := by
  induction w with
  | zero => rfl
  | succ w ih => simp [bits, ih, List.replicate_succ]

theorem bits_eq_replicate_iff {w n : Nat} :
    bits w n = List.replicate w false ↔ n % 2 ^ w = 0 := by
  rw [← bits_zero, ← bits_mod le_rfl n]
  constructor
  · exact bits_inj (Nat.mod_lt _ (Nat.two_pow_pos w)) (Nat.two_pow_pos w)
  · intro h
    rw [h]

theorem eq_replicate_iff_not_mem {bs : List Bool} :
    bs = List.replicate bs.length false ↔ true ∉ bs := by
  rw [List.eq_replicate_iff]
  constructor
  · intro h hone
    cases h.2 true hone
  · refine fun h => ⟨rfl, fun b hb => ?_⟩
    cases b with
    | false => rfl
    | true => exact absurd hb h

theorem bits_zeros_iff {w n : Nat} :
    bits w n = List.replicate w false ↔ true ∉ bits w n := by
  rw [← eq_replicate_iff_not_mem, length_bits]

/-- Reading a word: it lands below the pending bits. -/
theorem bits_feed {f v : Nat} (hv : v < 2 ^ f) (p acc : Nat) :
    bits (p + f) (acc <<< f ||| v) = bits p acc ++ bits f v := by
  rw [bits_add]
  congr 1
  · rw [Nat.shiftRight_or_distrib, Nat.shiftLeft_shiftRight, Nat.shiftRight_eq_zero v f hv,
      Nat.or_zero]
  · rw [bits_eq_iff]
    intro i hi
    simp [Nat.testBit_or, Nat.testBit_shiftLeft, show ¬ f ≤ i by omega]

/-- Words of width `w`, one after the other. -/
def flat (w : Nat) (xs : List Nat) : List Bool := xs.flatMap (bits w)

@[simp] theorem flat_nil (w : Nat) : flat w [] = [] := rfl

@[simp] theorem flat_cons (w x : Nat) (xs : List Nat) :
    flat w (x :: xs) = bits w x ++ flat w xs := rfl

@[simp] theorem flat_append (w : Nat) (xs ys : List Nat) :
    flat w (xs ++ ys) = flat w xs ++ flat w ys := List.flatMap_append

@[simp] theorem length_flat (w : Nat) (xs : List Nat) : (flat w xs).length = w * xs.length := by
  induction xs with
  | nil => simp
  | cons x xs ih => simp [ih, Nat.mul_succ, Nat.add_comm]

theorem flat_inj {w : Nat} (hw : 0 < w) {xs ys : List Nat} (hx : ∀ x ∈ xs, x < 2 ^ w)
    (hy : ∀ y ∈ ys, y < 2 ^ w) (h : flat w xs = flat w ys) : xs = ys := by
  induction xs generalizing ys with
  | nil =>
    have hl := congrArg List.length h
    simp only [length_flat, List.length_nil, Nat.mul_zero] at hl
    cases ys with
    | nil => rfl
    | cons y ys => simp at hl; omega
  | cons x xs ih =>
    cases ys with
    | nil =>
      have hl := congrArg List.length h
      simp at hl; omega
    | cons y ys =>
      simp only [flat_cons] at h
      obtain ⟨hb, ht⟩ := List.append_inj h (by simp)
      rw [bits_inj (hx x (by simp)) (hy y (by simp)) hb,
        ih (fun z hz => hx z (by simp [hz])) (fun z hz => hy z (by simp [hz])) ht]

/-- Words followed by less than one word: the words and the rest are both fixed. -/
theorem flat_append_inj {w : Nat} {p q : List Bool} (hp : p.length < w) (hq : q.length < w)
    {xs ys : List Nat} (hx : ∀ x ∈ xs, x < 2 ^ w) (hy : ∀ y ∈ ys, y < 2 ^ w)
    (h : flat w xs ++ p = flat w ys ++ q) : xs = ys ∧ p = q := by
  have hlen : w * xs.length + p.length = w * ys.length + q.length := by
    simpa using congrArg List.length h
  have hwords := congrArg (· / w) hlen
  simp only [Nat.mul_add_div (by omega : 0 < w), Nat.div_eq_of_lt hp, Nat.div_eq_of_lt hq,
    Nat.add_zero] at hwords
  obtain ⟨hf, hr⟩ := List.append_inj h (by simp [hwords])
  exact ⟨flat_inj (by omega) hx hy hf, hr⟩

theorem flat_padded_inj {w : Nat} {bs : List Bool} {k l : Nat} (hk : k < w) (hl : l < w)
    {xs ys : List Nat} (hx : ∀ x ∈ xs, x < 2 ^ w) (hy : ∀ y ∈ ys, y < 2 ^ w)
    (h : flat w xs = bs ++ List.replicate k false)
    (h' : flat w ys = bs ++ List.replicate l false) : xs = ys := by
  have hlen := congrArg List.length h
  have hlen' := congrArg List.length h'
  simp only [length_flat, List.length_append, List.length_replicate] at hlen hlen'
  have hcount : xs.length = ys.length := by
    rcases Nat.lt_trichotomy xs.length ys.length with hlt | heq | hgt
    · have := Nat.mul_le_mul_left w hlt
      rw [Nat.mul_succ] at this
      omega
    · exact heq
    · have := Nat.mul_le_mul_left w hgt
      rw [Nat.mul_succ] at this
      omega
  rw [hcount] at hlen
  rw [show k = l by omega, ← h'] at h
  exact flat_inj (by omega) hx hy h

theorem flat_take (w k : Nat) (xs : List Nat) : flat w (xs.take k) = (flat w xs).take (w * k) := by
  induction xs generalizing k with
  | nil => simp
  | cons x xs ih =>
    cases k with
    | zero => simp
    | succ k =>
      have hword : (bits w x).take (w * (k + 1)) = bits w x :=
        List.take_of_length_le (by rw [length_bits, Nat.mul_succ]; omega)
      rw [List.take_succ_cons, flat_cons, flat_cons, ih, List.take_append, hword, length_bits,
        Nat.mul_succ, Nat.add_sub_cancel]

end MxSdk.BitList
