import Mathlib.Data.List.Basic
import Mathlib.Data.List.Induction

/-! Sponges. A text is put into a state symbol by symbol, and the state is permuted whenever
the place for a block is full. This is the same as to cut the text into blocks first. -/

namespace MxSdk.Sponge

variable {S B : Type*} (f : S → S) (put : S → Nat → B → S) (rate : Nat)

/-- Symbols that are put behind a place. -/
def load (s : S) : Nat → List B → S
  | _, [] => s
  | i, b :: bs => load (put s i b) (i + 1) bs

def absorb (s : S) (block : List B) : S := f (load put s 0 block)

def turn (c : S × Nat) (b : B) : S × Nat :=
  if rate ≤ c.2 + 1 then (f (put c.1 c.2 b), 0) else (put c.1 c.2 b, c.2 + 1)

variable {f put rate}

theorem load_append (s : S) (i : Nat) (bs bs' : List B) :
    load put s i (bs ++ bs') = load put (load put s i bs) (i + bs.length) bs' := by
  induction bs generalizing s i with
  | nil => rfl
  | cons b bs ih =>
    rw [List.cons_append, load, ih, load, List.length_cons, Nat.add_right_comm, Nat.add_assoc]

theorem load_of_id {b : B} (h : ∀ s i, put s i b = s) (s : S) (i n : Nat) :
    load put s i (List.replicate n b) = s := by
  induction n generalizing i with
  | zero => rfl
  | succ n ih => rw [List.replicate_succ, load, h, ih]

theorem foldl_turn_rest {s : S} {i : Nat} {rest : List B} (h : i + rest.length < rate) :
    rest.foldl (turn f put rate) (s, i) = (load put s i rest, i + rest.length) := by
  induction rest generalizing s i with
  | nil => rfl
  | cons b rest ih =>
    rw [List.length_cons] at h ⊢
    have hstep : turn f put rate (s, i) b = (put s i b, i + 1) :=
      if_neg (show ¬ rate ≤ i + 1 by omega)
    rw [List.foldl_cons, hstep, ih (by omega), load, Nat.add_right_comm, Nat.add_assoc]

theorem foldl_turn_block {s : S} {block : List B} (hrate : 0 < rate)
    (h : block.length = rate) : block.foldl (turn f put rate) (s, 0) = (absorb f put s block, 0) := by
  have hne : block ≠ [] := List.ne_nil_of_length_pos (h ▸ hrate)
  obtain ⟨bs, b, rfl⟩ := (List.eq_nil_or_concat' block).resolve_left hne
  rw [List.length_append, List.length_singleton] at h
  have hbs : bs.foldl (turn f put rate) (s, 0) = (load put s 0 bs, 0 + bs.length) :=
    foldl_turn_rest (by omega)
  rw [List.foldl_append, hbs, absorb, load_append]
  exact if_pos (show rate ≤ 0 + bs.length + 1 by omega)

/-- A text by symbols is one by blocks. -/
theorem foldl_turn (hrate : 0 < rate) (s : S) {blocks : List (List B)}
    (hblocks : ∀ block ∈ blocks, block.length = rate) {rest : List B} (hrest : rest.length < rate) :
    (blocks.flatten ++ rest).foldl (turn f put rate) (s, 0) =
      (load put (blocks.foldl (absorb f put) s) 0 rest, rest.length) := by
  induction blocks generalizing s with
  | nil => rw [List.flatten_nil, List.nil_append, foldl_turn_rest (by omega), Nat.zero_add]; rfl
  | cons block blocks ih =>
    rw [List.flatten_cons, List.append_assoc, List.foldl_append,
      foldl_turn_block hrate (hblocks block List.mem_cons_self),
      ih _ fun other hother => hblocks other (List.mem_cons_of_mem _ hother)]
    rfl

theorem exists_blocks (hrate : 0 < rate) (bs : List B) :
    ∃ (blocks : List (List B)) (rest : List B), bs = blocks.flatten ++ rest ∧
      (∀ block ∈ blocks, block.length = rate) ∧ rest.length < rate := by
  induction bs using List.reverseRecOn with
  | nil => exact ⟨[], [], rfl, List.forall_mem_nil _, hrate⟩
  | append_singleton bs b ih =>
    obtain ⟨blocks, rest, rfl, hblocks, hrest⟩ := ih
    by_cases hfull : rest.length + 1 = rate
    · refine ⟨blocks ++ [rest ++ [b]], [], ?_, ?_, hrate⟩
      · rw [List.flatten_append, List.flatten_singleton, List.append_assoc, List.append_nil]
      · intro block hblock
        rcases List.mem_append.mp hblock with hblock | hblock
        · exact hblocks block hblock
        · rw [List.mem_singleton.mp hblock, List.length_append, List.length_singleton, hfull]
    · refine ⟨blocks, rest ++ [b], (List.append_assoc _ _ _), hblocks, ?_⟩
      rw [List.length_append, List.length_singleton]
      omega

end MxSdk.Sponge
