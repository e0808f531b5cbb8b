import MxSdk.Lib.Positional
import MxSdk.Utils.Base64

/-! The accumulator `val` of the two loops as the `int` it is. Nothing masks it, so it
becomes the number that all bytes or letters read so far spell, as long as an `int` can
hold that number. -/

namespace MxSdk.Base64
open BitList Bits Positional

def InInt (v : Int) : Prop := 0 ≤ v ∧ v < 2 ^ 31

instance : DecidablePred InInt := fun v => inferInstanceAs (Decidable (0 ≤ v ∧ v < 2 ^ 31))

/-- What the rest of `encode` computes for `val`: the shift and the sum at every byte, and
the shift after the last one. These are integers, so that an overflow shows. -/
def Encoder.values (e : Encoder) : Bytes → List Int
  | [] => if -6 < e.valb then [e.val.toInt * 2 ^ 8] else []
  | c :: s => e.val.toInt * 2 ^ 8 :: (e.val.toInt * 2 ^ 8 + c.toNat) :: (e.push c).values s

def encodeValues (s : Bytes) : List Int := (⟨0, -6, []⟩ : Encoder).values s

def Decoder.values (d : Decoder) : Bytes → List Int
  | [] => []
  | c :: s =>
    if table.getD c.toNat (-1) = -1 then []
    else d.val.toInt * 2 ^ 6 :: (d.val.toInt * 2 ^ 6 + table.getD c.toNat (-1)) ::
      (d.push (table.getD c.toNat (-1))).values s

def decodeValues (s : Bytes) : List Int := (⟨0, -8, []⟩ : Decoder).values s

theorem inInt_natCast {n : Nat} : InInt (n : Int) ↔ n < 2 ^ 31 := by
  rw [InInt]
  omega

theorem toInt_of_lt {val : BitVec 32} (h : val.toNat < 2 ^ 31) : val.toInt = val.toNat :=
  BitVec.toInt_eq_toNat_of_lt (by omega)

theorem inInt_shift {val : BitVec 32} (h : val.toNat < 2 ^ 31) (w : Nat) :
    InInt (val.toInt * 2 ^ w) ↔ val.toNat * 2 ^ w < 2 ^ 31 := by
  rw [toInt_of_lt h, ← inInt_natCast, Int.natCast_mul, Int.natCast_pow]
  rfl

theorem inInt_turn {val : BitVec 32} (h : val.toNat < 2 ^ 31) (w c : Nat) :
    (InInt (val.toInt * 2 ^ w) ∧ InInt (val.toInt * 2 ^ w + c)) ↔
      val.toNat * 2 ^ w + c < 2 ^ 31 := by
  have hsum : InInt (val.toInt * 2 ^ w + c) ↔ val.toNat * 2 ^ w + c < 2 ^ 31 := by
    rw [toInt_of_lt h, ← inInt_natCast, Int.natCast_add, Int.natCast_mul, Int.natCast_pow]
    rfl
  rw [inInt_shift h, hsum]
  omega

theorem toNat_turn {val : BitVec 32} {w c : Nat} (hw : w ≤ 8) (hc : c < 2 ^ w)
    (h : val.toNat * 2 ^ w + c < 2 ^ 31) :
    ((val <<< w) + BitVec.ofNat 32 c).toNat = val.toNat * 2 ^ w + c := by
  rw [toNat_feed val hw hc, ← Nat.shiftLeft_add_eq_or_of_lt hc, Nat.shiftLeft_eq]
  exact Nat.mod_eq_of_lt (by omega)

/-- The values of a turn and of what comes `later`, where a later bound covers the sum. -/
theorem turn_iff {val : BitVec 32} {w c : Nat} {later : List Int} {Bounded : Prop}
    (h : val.toNat < 2 ^ 31) (hsum : Bounded → val.toNat * 2 ^ w + c < 2 ^ 31)
    (hlater : val.toNat * 2 ^ w + c < 2 ^ 31 → ((∀ v ∈ later, InInt v) ↔ Bounded)) :
    (∀ v ∈ val.toInt * 2 ^ w :: (val.toInt * 2 ^ w + c) :: later, InInt v) ↔ Bounded := by
  rw [List.forall_mem_cons, List.forall_mem_cons, ← and_assoc, inInt_turn h]
  constructor
  · intro hall
    exact (hlater hall.1).mp hall.2
  · intro hbounded
    exact ⟨hsum hbounded, (hlater (hsum hbounded)).mpr hbounded⟩

theorem Encoder.values_iff (s : Bytes) {e : Encoder} (h : e.val.toNat < 2 ^ 31) :
    (∀ v ∈ e.values s, InInt v) ↔
      accumulate (2 ^ 8) e.val.toNat (s.map UInt8.toNat) < 2 ^ 31 ∧
        (-6 < (s.foldl Encoder.push e).valb →
          accumulate (2 ^ 8) e.val.toNat (s.map UInt8.toNat) * 2 ^ 8 < 2 ^ 31) := by
  induction s generalizing e with
  | nil =>
    rw [Encoder.values, List.map_nil, List.foldl_nil]
    simp only [accumulate, List.foldl_nil, h, true_and]
    split
    · rename_i hv
      simp only [List.forall_mem_singleton, hv, true_implies, inInt_shift h]
    · rename_i hv
      exact iff_of_true (List.forall_mem_nil _) fun hv' => absurd hv' hv
  | cons c s ih =>
    have hle := le_accumulate (b := 2 ^ 8) (by decide) (e.val.toNat * 2 ^ 8 + c.toNat)
      (s.map UInt8.toNat)
    rw [Encoder.values, List.map_cons, accumulate_cons, List.foldl_cons]
    refine turn_iff h (fun hbounded => hle.trans_lt hbounded.1) fun hlt => ?_
    have hval : (e.push c).val.toNat = e.val.toNat * 2 ^ 8 + c.toNat :=
      toNat_turn (by decide) c.toNat_lt hlt
    rw [ih (by rw [hval]; exact hlt), hval]

theorem waiting_iff (s : Bytes) :
    -6 < (s.foldl Encoder.push ⟨0, -6, []⟩).valb ↔ s.length % 3 ≠ 0 := by
  obtain ⟨idx, he⟩ := pushAll_spells encoder_start s
  have hlower := he.lower
  have hupper := he.upper
  have hbits := congrArg List.length he.spells
  simp only [List.length_append, length_spelled, length_bits, List.nil_append] at hbits
  omega

/-- What the letters in front of the first other byte stand for. -/
def letterValues (s : Bytes) : List Nat :=
  (s.takeWhile fun c => table.getD c.toNat (-1) ≠ -1).map fun c => (table.getD c.toNat (-1)).toNat

theorem table_range {c : UInt8} (h : table.getD c.toNat (-1) ≠ -1) :
    0 ≤ table.getD c.toNat (-1) ∧ table.getD c.toNat (-1) < 64 := by
  have all : ∀ t ∈ table, t ≠ -1 → 0 ≤ t ∧ t < 64 := by decide +kernel
  rw [List.getD_eq_getElem?_getD] at h ⊢
  cases hc : table[c.toNat]? with
  | none => exact absurd (by rw [hc]; rfl) h
  | some t =>
    rw [hc] at h
    exact all t (List.mem_of_getElem? hc) h

theorem Decoder.push_val (d : Decoder) (t : Int) :
    (d.push t).val = (d.val <<< 6) + BitVec.ofInt 32 t := by
  rw [Decoder.push]
  split <;> rfl

theorem Decoder.values_iff (s : Bytes) {d : Decoder} (h : d.val.toNat < 2 ^ 31) :
    (∀ v ∈ d.values s, InInt v) ↔ accumulate (2 ^ 6) d.val.toNat (letterValues s) < 2 ^ 31 := by
  induction s generalizing d with
  | nil => exact iff_of_true (List.forall_mem_nil _) h
  | cons c s ih =>
    rw [Decoder.values, letterValues, List.takeWhile_cons]
    by_cases hletter : table.getD c.toNat (-1) = -1
    · rw [if_pos hletter, if_neg (by simpa using hletter)]
      exact iff_of_true (List.forall_mem_nil _) h
    · obtain ⟨hnonneg, hlt64⟩ := table_range hletter
      obtain ⟨t, ht⟩ := Int.eq_ofNat_of_zero_le hnonneg
      rw [ht] at hlt64
      have hle := le_accumulate (b := 2 ^ 6) (by decide) (d.val.toNat * 2 ^ 6 + t) (letterValues s)
      rw [if_neg hletter, if_pos (by simpa using hletter), List.map_cons, ← letterValues,
        accumulate_cons, ht, Int.toNat_natCast]
      refine turn_iff h (fun hbounded => hle.trans_lt hbounded) fun hlt => ?_
      have hval : (d.push t).val.toNat = d.val.toNat * 2 ^ 6 + t := by
        rw [Decoder.push_val, BitVec.ofInt_natCast]
        exact toNat_turn (by decide) (by omega) hlt
      rw [ih (by rw [hval]; exact hlt), hval]

/-! Which inputs an `int` is wide enough for. -/

/-- Past leading zero bytes at most three, or two where the last letter takes a shift of
its own, and one more only below 0x80. -/
def EncodesInInt (s : Bytes) : Prop :=
  Within 0x80 (if s.length % 3 = 0 then 3 else 2) (significant (s.map UInt8.toNat))

/-- Past leading letters A at most five, or six with B in front. -/
def DecodesInInt (s : Bytes) : Prop := Within 2 5 (significant (letterValues s))

theorem encodeValues_iff (s : Bytes) : (∀ v ∈ encodeValues s, InInt v) ↔ EncodesInInt s := by
  have hdigits : ∀ d ∈ s.map UInt8.toNat, d < 2 ^ 8 := by
    intro d hd
    obtain ⟨c, -, rfl⟩ := List.mem_map.mp hd
    exact c.toNat_lt
  have hwithin : ∀ k, accumulate (2 ^ 8) 0 (s.map UInt8.toNat) < 0x80 * (2 ^ 8) ^ k ↔
      Within 0x80 k (significant (s.map UInt8.toNat)) :=
    fun k => accumulate_lt_iff (by decide) hdigits (by decide) (by decide)
  have hvalues : (∀ v ∈ encodeValues s, InInt v) ↔
      accumulate (2 ^ 8) 0 (s.map UInt8.toNat) < 2 ^ 31 ∧
        (s.length % 3 ≠ 0 → accumulate (2 ^ 8) 0 (s.map UInt8.toNat) * 2 ^ 8 < 2 ^ 31) := by
    rw [← waiting_iff]
    exact Encoder.values_iff s (by decide)
  rw [hvalues, EncodesInInt, ← hwithin]
  split <;> omega

theorem decodeValues_iff (s : Bytes) : (∀ v ∈ decodeValues s, InInt v) ↔ DecodesInInt s := by
  have hdigits : ∀ d ∈ letterValues s, d < 2 ^ 6 := by
    intro d hd
    obtain ⟨c, hc, rfl⟩ := List.mem_map.mp hd
    have := table_range (by simpa using List.mem_takeWhile_imp hc)
    omega
  rw [decodeValues, Decoder.values_iff s (by decide), DecodesInInt,
    ← accumulate_lt_iff (by decide) hdigits (by decide) (by decide)]
  rfl

theorem accumulator_inInt_iff (s t : Bytes) :
    ((∀ v ∈ encodeValues s, InInt v) ↔ EncodesInInt s) ∧
      ((∀ v ∈ decodeValues t, InInt v) ↔ DecodesInInt t) :=
  ⟨encodeValues_iff s, decodeValues_iff t⟩

theorem hello_overflows : (¬ ∀ v ∈ encodeValues (ascii "hello"), InInt v) ∧
    ¬ ∀ v ∈ decodeValues (ascii "aGVsbG8="), InInt v := by
  constructor
  · decide +kernel
  · decide +kernel

end MxSdk.Base64
