import Mathlib.Data.Nat.Digits.Lemmas
import Mathlib.Data.List.TakeWhile

/-! Numbers read digit by digit, the leading digit first. How large the number gets is
seen from the digits that are left when the leading zeros are dropped. -/

namespace MxSdk.Positional

/-- The digits read into an accumulator that holds `v`. -/
def accumulate (b v : Nat) (ds : List Nat) : Nat := ds.foldl (fun v d => v * b + d) v

def significant (ds : List Nat) : List Nat := ds.dropWhile (· = 0)

/-- Below `m * b ^ k` by the digits alone: at most `k` of them, or one more below `m`. -/
def Within (m k : Nat) : List Nat → Prop
  | [] => True
  | d :: ds => ds.length < k ∨ (ds.length = k ∧ d < m)

instance (m k : Nat) : DecidablePred (Within m k)
  | [] => .isTrue trivial
  | d :: ds => inferInstanceAs (Decidable (ds.length < k ∨ (ds.length = k ∧ d < m)))

variable {b v m k : Nat} {ds : List Nat}

theorem accumulate_cons (b v d : Nat) (ds : List Nat) :
    accumulate b v (d :: ds) = accumulate b (v * b + d) ds := rfl

theorem accumulate_eq (b v : Nat) (ds : List Nat) :
    accumulate b v ds = v * b ^ ds.length + Nat.ofDigits b ds.reverse := by
  induction ds generalizing v with
  | nil => simp [accumulate]
  | cons d ds ih =>
    rw [accumulate_cons, ih, List.length_cons, List.reverse_cons, Nat.ofDigits_append,
      Nat.ofDigits_singleton, List.length_reverse]
    ring

theorem le_accumulate (hb : 0 < b) (v : Nat) (ds : List Nat) : v ≤ accumulate b v ds := by
  rw [accumulate_eq]
  exact (Nat.le_mul_of_pos_right v (Nat.pow_pos hb)).trans (Nat.le_add_right _ _)

theorem accumulate_leading_lt_iff (hb : 1 < b) {d : Nat} (hd : 0 < d) (hdb : d < b)
    (hds : ∀ d ∈ ds, d < b) (hm : 0 < m) (hmb : m ≤ b) :
    accumulate b d ds < m * b ^ k ↔ Within m k (d :: ds) := by
  have hlow : Nat.ofDigits b ds.reverse < b ^ ds.length := by
    rw [← List.length_reverse]
    exact Nat.ofDigits_lt_base_pow_length hb fun d hd => hds d (List.mem_reverse.mp hd)
  have hup : accumulate b d ds < (d + 1) * b ^ ds.length := by
    rw [accumulate_eq, Nat.add_one_mul]
    omega
  have hdown : d * b ^ ds.length ≤ accumulate b d ds := by
    rw [accumulate_eq]
    exact Nat.le_add_right _ _
  rcases Nat.lt_trichotomy ds.length k with hlt | rfl | hgt
  · refine iff_of_true (hup.trans_le ?_) (.inl hlt)
    calc (d + 1) * b ^ ds.length ≤ b * b ^ ds.length := Nat.mul_le_mul_right _ hdb
      _ = b ^ (ds.length + 1) := (Nat.pow_succ').symm
      _ ≤ b ^ k := Nat.pow_le_pow_right (by omega) hlt
      _ ≤ m * b ^ k := Nat.le_mul_of_pos_left _ hm
  · refine ⟨fun h => .inr ⟨rfl, ?_⟩, fun h => hup.trans_le ?_⟩
    · exact Nat.lt_of_mul_lt_mul_right (hdown.trans_lt h)
    · exact Nat.mul_le_mul_right _ (h.resolve_left (Nat.lt_irrefl _)).2
  · refine iff_of_false (Nat.not_lt.mpr ?_) (by rw [Within]; omega)
    calc m * b ^ k ≤ b * b ^ k := Nat.mul_le_mul_right _ hmb
      _ = b ^ (k + 1) := (Nat.pow_succ').symm
      _ ≤ b ^ ds.length := Nat.pow_le_pow_right (by omega) hgt
      _ ≤ d * b ^ ds.length := Nat.le_mul_of_pos_left _ hd
      _ ≤ accumulate b d ds := hdown

theorem accumulate_lt_iff (hb : 1 < b) (hds : ∀ d ∈ ds, d < b) (hm : 0 < m) (hmb : m ≤ b) :
    accumulate b 0 ds < m * b ^ k ↔ Within m k (significant ds) := by
  induction ds with
  | nil => exact iff_of_true (Nat.mul_pos hm (Nat.pow_pos (by omega))) trivial
  | cons d ds ih =>
    have hrest : ∀ d ∈ ds, d < b := fun d hd => hds d (List.mem_cons_of_mem _ hd)
    rw [accumulate_cons, Nat.zero_mul, Nat.zero_add, significant]
    by_cases hd : d = 0
    · rw [List.dropWhile_cons_of_pos (by simp [hd]), hd, ih hrest, significant]
    · rw [List.dropWhile_cons_of_neg (by simp [hd])]
      exact accumulate_leading_lt_iff hb (by omega) (hds d List.mem_cons_self) hrest hm hmb

end MxSdk.Positional
