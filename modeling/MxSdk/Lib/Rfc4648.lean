import MxSdk.Lib.BitList

/-! The base 64 encoding of RFC 4648, section 4. Three bytes are a group of 24 bits, which
are four letters; a last group of one or two bytes is filled with zero bits up to a whole
letter, and its text with `=`. -/

namespace MxSdk.Rfc4648
open BitList

/-- Table 1. -/
def letter (i : Nat) : UInt8 :=
  if i < 26 then UInt8.ofNat (65 + i)
  else if i < 52 then UInt8.ofNat (97 + (i - 26))
  else if i < 62 then UInt8.ofNat (48 + (i - 52))
  else if i = 62 then 43 else 47

def pad : UInt8 := 61

/-- The first `k` words of six bits of a group. -/
def words (k group : Nat) : List Nat := [18, 12, 6, 0].take k |>.map fun i => group / 2 ^ i % 64

def group (a b c : UInt8) : Nat := a.toNat * 2 ^ 16 + b.toNat * 2 ^ 8 + c.toNat

def encode : List UInt8 → List UInt8
  | a :: b :: c :: rest => (words 4 (group a b c)).map letter ++ encode rest
  | [a, b] => (words 3 (group a b 0)).map letter ++ [pad]
  | [a] => (words 2 (group a 0 0)).map letter ++ [pad, pad]
  | [] => []

theorem flat_words_four (n : Nat) : flat 6 (words 4 n) = bits 24 n := by
  have hword (i : Nat) : bits 6 (n / 2 ^ i % 64) = bits 6 (n >>> i) := by
    rw [show (64 : Nat) = 2 ^ 6 from rfl, bits_mod le_rfl, Nat.shiftRight_eq_div_pow]
  have hsplit (k i : Nat) :
      bits (k + 6) (n >>> i) = bits k (n >>> (i + 6)) ++ bits 6 (n >>> i) := by
    rw [bits_add, Nat.shiftRight_add]
  simp only [words, List.take, List.map_cons, List.map_nil, flat_cons, flat_nil, hword,
    List.append_nil]
  rw [show bits 24 n = bits 24 (n >>> 0) from rfl, hsplit 18 0, hsplit 12, hsplit 6,
    List.append_assoc, List.append_assoc]

theorem flat_words {k : Nat} (hk : k ≤ 4) (n : Nat) :
    flat 6 (words k n) = (bits 24 n).take (6 * k) := by
  have htake : words k n = (words 4 n).take k := by
    rw [words, words, List.map_take, List.map_take, List.take_take, min_eq_left hk]
  rw [htake, flat_take, flat_words_four]

theorem bits_group (a b c : UInt8) :
    bits 24 (group a b c) = bits 8 a.toNat ++ bits 8 b.toNat ++ bits 8 c.toNat := by
  have hgroup : group a b c = (a.toNat <<< 8 ||| b.toNat) <<< 8 ||| c.toNat := by
    rw [← Nat.shiftLeft_add_eq_or_of_lt b.toNat_lt, ← Nat.shiftLeft_add_eq_or_of_lt c.toNat_lt,
      Nat.shiftLeft_eq, Nat.shiftLeft_eq, group]
    omega
  rw [hgroup, show (24 : Nat) = 16 + 8 from rfl, bits_feed c.toNat_lt,
    show (16 : Nat) = 8 + 8 from rfl, bits_feed b.toNat_lt]

theorem words_lt {k n w : Nat} (h : w ∈ words k n) : w < 2 ^ 6 := by
  obtain ⟨i, -, rfl⟩ := List.mem_map.mp h
  exact Nat.mod_lt _ (by decide)

theorem length_words {k : Nat} (hk : k ≤ 4) (n : Nat) : (words k n).length = k := by
  rw [words, List.length_map, List.length_take]
  exact min_eq_left hk

/-- The text of a byte string is its bits, filled to whole letters, and `=` up to a multiple
of four. -/
theorem encode_spec (s : List UInt8) :
    ∃ ws k, (∀ w ∈ ws, w < 2 ^ 6) ∧ k < 6 ∧
      flat 6 ws = flat 8 (s.map UInt8.toNat) ++ List.replicate k false ∧
      encode s = ws.map letter ++ List.replicate ((4 - ws.length % 4) % 4) pad := by
  induction s using encode.induct with
  | case1 a b c rest ih =>
    obtain ⟨ws, k, hlt, hk, hflat, htext⟩ := ih
    refine ⟨words 4 (group a b c) ++ ws, k, fun w hw => ?_, hk, ?_, ?_⟩
    · exact (List.mem_append.mp hw).elim words_lt (hlt w)
    · rw [flat_append, flat_words_four, bits_group, hflat]
      simp
    · rw [encode, htext, List.map_append, List.length_append, length_words le_rfl,
        Nat.add_mod_left, List.append_assoc]
  | case2 a b =>
    refine ⟨words 3 (group a b 0), 2, fun w => words_lt, by decide, ?_, ?_⟩
    · have hzeros : bits 8 (0 : UInt8).toNat =
          List.replicate 2 false ++ List.replicate 6 false := rfl
      rw [flat_words (by decide), bits_group, hzeros, ← List.append_assoc,
        List.take_left' (by simp)]
      simp
    · rw [length_words (by decide)]
      rfl
  | case3 a =>
    refine ⟨words 2 (group a 0 0), 4, fun w => words_lt, by decide, ?_, ?_⟩
    · have hzeros : bits 8 (0 : UInt8).toNat ++ bits 8 (0 : UInt8).toNat =
          List.replicate 4 false ++ List.replicate 12 false := rfl
      rw [flat_words (by decide), bits_group, List.append_assoc, hzeros, ← List.append_assoc,
        List.take_left' (by simp)]
      simp
    · rw [length_words (by decide)]
      rfl
  | case4 => exact ⟨[], 0, nofun, by decide, rfl, rfl⟩

end MxSdk.Rfc4648
