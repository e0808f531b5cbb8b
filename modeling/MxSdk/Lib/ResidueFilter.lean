import Mathlib.Data.List.Basic

/-! Filters of residues. A set of numbers leaves its residues in the bits of one number,
so a residue that is not there shows that a number is not in the set. -/

namespace MxSdk.ResidueFilter

/-- The residues modulo `p`, as the bits of a number. -/
def residues (p : Nat) (xs : List Nat) : Nat := xs.foldr (fun x m => m ||| 1 <<< (x % p)) 0

def union (p : Nat) (rows : List (List Nat)) : Nat := rows.foldr (fun r m => residues p r ||| m) 0

def misses (p m x : Nat) : Bool := Nat.beq (Nat.land (Nat.shiftRight m (x % p)) 1) 0

theorem testBit_residues {p x : Nat} {xs : List Nat} (h : x ∈ xs) :
    (residues p xs).testBit (x % p) = true := by
  induction xs with
  | nil => cases h
  | cons y xs ih =>
    rw [residues, List.foldr_cons, Nat.testBit_or]
    rcases List.mem_cons.mp h with rfl | hmem
    · rw [Nat.testBit_shiftLeft]
      simp
    · exact Bool.or_eq_true_iff.mpr (.inl (ih hmem))

theorem testBit_union {p x : Nat} {r : List Nat} {rows : List (List Nat)} (hr : r ∈ rows)
    (hx : x ∈ r) : (union p rows).testBit (x % p) = true := by
  induction rows with
  | nil => cases hr
  | cons y rows ih =>
    rw [union, List.foldr_cons, Nat.testBit_or]
    rcases List.mem_cons.mp hr with rfl | hmem
    · exact Bool.or_eq_true_iff.mpr (.inl (testBit_residues hx))
    · exact Bool.or_eq_true_iff.mpr (.inr (ih hmem))

theorem misses_iff {p m x : Nat} : misses p m x = true ↔ m.testBit (x % p) = false := by
  have hbit : (Nat.land (Nat.shiftRight m (x % p)) 1 = 0) ↔ m.testBit (x % p) = false := by
    change ((m >>> (x % p)) &&& 1 = 0) ↔ _
    rw [Nat.testBit, Nat.and_comm]
    simp
  rw [misses, Nat.beq_eq, hbit]

def clear (filters : List (Nat × Nat)) (x : Nat) : Bool :=
  filters.any fun f => misses f.1 f.2 x

theorem not_mem_of_clear {moduli : List Nat} {rows : List (List Nat)} {x : Nat}
    (h : clear (moduli.map fun p => (p, union p rows)) x = true) {r : List Nat} (hr : r ∈ rows) :
    x ∉ r := by
  intro hx
  obtain ⟨f, hf, hmiss⟩ := List.any_eq_true.mp h
  obtain ⟨p, -, rfl⟩ := List.mem_map.mp hf
  rw [misses_iff, testBit_union hr hx] at hmiss
  cases hmiss

end MxSdk.ResidueFilter
