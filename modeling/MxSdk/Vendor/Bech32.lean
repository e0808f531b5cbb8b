import MxSdk.Utils.Bits
import MxSdk.Lib.Superposition
import Mathlib.Data.BitVec

/-! bech32.cpp. The checksum register is driven by a map that distributes over
exclusive or, so six last symbols make a text valid exactly when they are the ones
`CreateChecksum` appends. Hence `decode` accepts the spellings of what `encode`
writes, in either letter case, and nothing else. -/

namespace MxSdk.Bech32
open BitList Bits

def charset : Bytes := ascii "qpzry9x8gf2tvdw0s3jn54khce6mua7l"

def charsetRev : List Int :=
  List.replicate 48 (-1) ++
  [15, -1, 10, 17, 21, 20, 26, 30,  7,  5, -1, -1, -1, -1, -1, -1,
   -1, 29, -1, 24, 13, 25,  9,  8, 23, -1, 18, 22, 31, 27, 19, -1,
    1,  0,  3, 16, 11, 28, 12, 14,  6,  4,  2, -1, -1, -1, -1, -1,
   -1, 29, -1, 24, 13, 25,  9,  8, 23, -1, 18, 22, 31, 27, 19, -1,
    1,  0,  3, 16, 11, 28, 12, 14,  6,  4,  2, -1, -1, -1, -1, -1]

/-- One turn of the loop of `PolyMod`. -/
def polyModStep (c : BitVec 32) (v : UInt8) : BitVec 32 :=
  let c0 := (c >>> 25).setWidth 8
  let c := ((c &&& 0x1ffffff) <<< 5) ^^^ v.toBitVec.setWidth 32
  let c := if c0 &&& 1 ≠ 0 then c ^^^ 0x3b6a57b2 else c
  let c := if c0 &&& 2 ≠ 0 then c ^^^ 0x26508e6d else c
  let c := if c0 &&& 4 ≠ 0 then c ^^^ 0x1ea119fa else c
  let c := if c0 &&& 8 ≠ 0 then c ^^^ 0x3d4233dd else c
  if c0 &&& 16 ≠ 0 then c ^^^ 0x2a1462b3 else c

def polyMod (v : Bytes) : BitVec 32 := v.foldl polyModStep 1

def isLower (c : UInt8) : Bool := 97 ≤ c && c ≤ 122

def isUpper (c : UInt8) : Bool := 65 ≤ c && c ≤ 90

def lowerCase (c : UInt8) : UInt8 := if isUpper c then c - 65 + 97 else c

def expandHRP (hrp : Bytes) : Bytes :=
  hrp.map (fun c : UInt8 => c >>> 5) ++ 0 :: hrp.map (fun c : UInt8 => c &&& 0x1f)

def verifyChecksum (hrp values : Bytes) : Bool := polyMod (expandHRP hrp ++ values) = 1

def createChecksum (hrp values : Bytes) : Bytes :=
  let mod := polyMod (expandHRP hrp ++ values ++ List.replicate 6 0) ^^^ 1
  (List.range 6).map fun i => UInt8.ofNat ((mod >>> (5 * (5 - i)) &&& 31).toNat)

def separator : UInt8 := 49

def letter (v : UInt8) : UInt8 := charset.getD v.toNat 0

def encode (hrp values : Bytes) : Bytes :=
  hrp ++ separator :: (values ++ createChecksum hrp values).map letter

def rfind (c : UInt8) : Bytes → Option Nat
  | [] => none
  | b :: s =>
    match rfind c s with
    | some i => some (i + 1)
    | none => if b = c then some 0 else none

def outOfRange (c : UInt8) : Bool := c < 33 || 126 < c

/-- The word of a character, `none` where the source has -1. -/
def charValue (c : UInt8) : Option UInt8 :=
  let rev := if outOfRange c then -1 else charsetRev.getD c.toNat (-1)
  if rev = -1 then none else some (UInt8.ofNat rev.toNat)

/-- A text that is not accepted decodes to two empty strings. -/
def decode (str : Bytes) : Bytes × Bytes :=
  if str.any outOfRange then ([], [])
  else if str.any isLower && str.any isUpper then ([], [])
  else
    match rfind separator str with
    | none => ([], [])
    | some pos =>
      if 90 < str.length ∨ pos = 0 ∨ str.length < pos + 7 then ([], [])
      else
        match (str.drop (pos + 1)).mapM charValue with
        | none => ([], [])
        | some values =>
          let hrp := (str.take pos).map lowerCase
          if verifyChecksum hrp values then (hrp, values.take (values.length - 6)) else ([], [])

/-! The register. -/

theorem and_xor_distrib (a b m : BitVec 32) : (a ^^^ b) &&& m = (a &&& m) ^^^ (b &&& m) := by
  ext i hi
  simp [Bool.and_xor_distrib_right]

/-- What a turn does to the register before the symbol comes in. -/
def advance (c : BitVec 32) : BitVec 32 := polyModStep c 0

theorem ite_xor_xor (p : Prop) [Decidable p] (c v k : BitVec 32) :
    (if p then (c ^^^ v) ^^^ k else c ^^^ v) = (if p then c ^^^ k else c) ^^^ v := by
  split
  · rw [BitVec.xor_assoc, BitVec.xor_comm v, BitVec.xor_assoc]
  · rfl

theorem polyModStep_eq (c : BitVec 32) (v : UInt8) :
    polyModStep c v = advance c ^^^ v.toBitVec.setWidth 32 := by
  simp only [advance, polyModStep, ite_xor_xor]
  simp

theorem bit_set_iff (c : BitVec 32) {i : Nat} (hi : i < 8) :
    ((c >>> 25).setWidth 8 &&& BitVec.twoPow 8 i ≠ 0) ↔ c.getLsbD (25 + i) = true := by
  have hpow : BitVec.twoPow 8 i ≠ 0#8 := by
    intro h
    have hbit := congrArg (fun x => x.getLsbD i) h
    simp [hi] at hbit
  rw [BitVec.and_twoPow, BitVec.getLsbD_setWidth, BitVec.getLsbD_ushiftRight]
  split
  · simp_all
  · simp_all

/-- The generator row that bit `25 + i` of the register brings in. -/
def row (c : BitVec 32) (i : Nat) (k : BitVec 32) : BitVec 32 :=
  if c.getLsbD (25 + i) then k else 0

theorem row_xor (a b : BitVec 32) (i : Nat) (k : BitVec 32) :
    row (a ^^^ b) i k = row a i k ^^^ row b i k := by
  simp only [row, BitVec.getLsbD_xor]
  cases a.getLsbD (25 + i) <;> cases b.getLsbD (25 + i) <;> simp

theorem ite_bit_eq_row (c d k : BitVec 32) {m : BitVec 8} {i : Nat} (hi : i < 8)
    (hm : m = BitVec.twoPow 8 i) :
    (if (c >>> 25).setWidth 8 &&& m ≠ 0 then d ^^^ k else d) = d ^^^ row c i k := by
  simp only [row, hm, bit_set_iff c hi]
  split
  · rfl
  · exact BitVec.xor_zero.symm

theorem advance_eq (c : BitVec 32) :
    advance c = ((c &&& 0x1ffffff) <<< 5) ^^^ row c 0 0x3b6a57b2 ^^^ row c 1 0x26508e6d ^^^
      row c 2 0x1ea119fa ^^^ row c 3 0x3d4233dd ^^^ row c 4 0x2a1462b3 := by
  have hzero : (UInt8.toBitVec 0).setWidth 32 = 0#32 := rfl
  simp only [advance, polyModStep, hzero, BitVec.xor_zero]
  rw [ite_bit_eq_row c _ _ (m := 1) (i := 0) (by decide) rfl,
    ite_bit_eq_row c _ _ (m := 2) (i := 1) (by decide) rfl,
    ite_bit_eq_row c _ _ (m := 4) (i := 2) (by decide) rfl,
    ite_bit_eq_row c _ _ (m := 8) (i := 3) (by decide) rfl,
    ite_bit_eq_row c _ _ (m := 16) (i := 4) (by decide) rfl]

theorem advance_xor (a b : BitVec 32) : advance (a ^^^ b) = advance a ^^^ advance b := by
  have hshift : ((a ^^^ b) &&& 0x1ffffff) <<< 5 =
      ((a &&& 0x1ffffff) <<< 5) ^^^ ((b &&& 0x1ffffff) <<< 5) := by
    rw [← BitVec.shiftLeft_xor_distrib, and_xor_distrib]
  simp only [advance_eq, row_xor, hshift]
  ac_rfl

def inject (v : UInt8) : BitVec 32 := v.toBitVec.setWidth 32

abbrev register (c : BitVec 32) (vs : Bytes) : BitVec 32 :=
  Superposition.run (· ^^^ ·) advance inject c vs

theorem foldl_polyModStep (c : BitVec 32) (vs : Bytes) : vs.foldl polyModStep c = register c vs :=
  congrArg (fun f => vs.foldl f c) (funext fun c => funext fun v => polyModStep_eq c v)

theorem register_append (c : BitVec 32) (vs ws : Bytes) :
    register c (vs ++ ws) = register (register c vs) ws :=
  Superposition.run_append _ _ _ c vs ws

theorem register_zeros (n : Nat) : register 0 (List.replicate n 0) = 0 := by
  induction n with
  | zero => rfl
  | succ n ih => exact ih

theorem advance_lt (c : BitVec 32) : (advance c).toNat < 2 ^ 30 := by
  have hrow (i : Nat) {k : BitVec 32} (hk : k.toNat < 2 ^ 30) : (row c i k).toNat < 2 ^ 30 := by
    rw [row]
    split
    · exact hk
    · decide
  have hshift : ((c &&& 0x1ffffff) <<< 5).toNat < 2 ^ 30 := by
    have hmask : (c &&& 0x1ffffff).toNat ≤ 0x1ffffff := Nat.and_le_right
    rw [BitVec.toNat_shiftLeft, Nat.shiftLeft_eq]
    omega
  rw [advance_eq]
  simp only [BitVec.toNat_xor]
  exact Nat.xor_lt_two_pow (Nat.xor_lt_two_pow (Nat.xor_lt_two_pow (Nat.xor_lt_two_pow
    (Nat.xor_lt_two_pow hshift (hrow 0 (by decide))) (hrow 1 (by decide))) (hrow 2 (by decide)))
    (hrow 3 (by decide))) (hrow 4 (by decide))

theorem toNat_inject (v : UInt8) : (inject v).toNat = v.toNat := by
  have hv := v.toNat_lt
  rw [inject, BitVec.toNat_setWidth, UInt8.toNat_toBitVec, Nat.mod_eq_of_lt (by omega)]

theorem register_concat_lt (c : BitVec 32) (vs : Bytes) {v : UInt8} (hv : v.toNat < 2 ^ 5) :
    (register c (vs ++ [v])).toNat < 2 ^ 30 := by
  rw [register_append, register, Superposition.run_cons, Superposition.run_nil, BitVec.toNat_xor,
    toNat_inject]
  exact Nat.xor_lt_two_pow (advance_lt _) (by omega)

theorem toNat_turn_small {c : BitVec 32} (hc : c.toNat < 2 ^ 25) {v : UInt8}
    (hv : v.toNat < 2 ^ 5) : (advance c ^^^ inject v).toNat = c.toNat <<< 5 ||| v.toNat := by
  have hrow (i : Nat) (k : BitVec 32) : row c i k = 0 := by
    have hpow : (2 : Nat) ^ 25 ≤ 2 ^ (25 + i) := Nat.pow_le_pow_right (by decide) (by omega)
    rw [row, ← BitVec.testBit_toNat, Nat.testBit_lt_two_pow (hc.trans_le hpow)]
    rfl
  have hmask : (c &&& 0x1ffffff).toNat = c.toNat := by
    rw [BitVec.toNat_and, show (0x1ffffff : BitVec 32).toNat = 2 ^ 25 - 1 from rfl,
      Nat.and_two_pow_sub_one_eq_mod, Nat.mod_eq_of_lt hc]
  have hadvance : (advance c).toNat = c.toNat <<< 5 := by
    simp only [advance_eq, hrow, BitVec.toNat_xor, BitVec.toNat_shiftLeft, hmask]
    rw [Nat.mod_eq_of_lt (by rw [Nat.shiftLeft_eq]; omega)]
    simp
  rw [BitVec.toNat_xor, hadvance, toNat_inject]
  apply Nat.eq_of_testBit_eq
  intro i
  rw [Nat.testBit_xor, Nat.testBit_or, Nat.testBit_shiftLeft]
  by_cases hi : 5 ≤ i
  · have hpow : (2 : Nat) ^ 5 ≤ 2 ^ i := Nat.pow_le_pow_right (by decide) hi
    rw [Nat.testBit_lt_two_pow (hv.trans_le hpow), Bool.xor_false, Bool.or_false]
  · simp [hi]

/-- Six symbols from an empty register stay in it as they are. -/
theorem register_spells {ws : Bytes} (hw : Words 5 ws) {c : BitVec 32} {k : Nat}
    (hc : c.toNat < 2 ^ (5 * k)) (hk : k + ws.length ≤ 6) :
    BitList.bits (5 * (k + ws.length)) (register c ws).toNat =
      BitList.bits (5 * k) c.toNat ++ spelled 5 ws := by
  induction ws generalizing c k with
  | nil => simp [register]
  | cons v ws ih =>
    have hv := hw v (by simp)
    rw [List.length_cons] at hk
    have hpow : (2 : Nat) ^ (5 * k) ≤ 2 ^ 25 := Nat.pow_le_pow_right (by decide) (by omega)
    have hturn := toNat_turn_small (hc.trans_le hpow) hv
    have hnext : (advance c ^^^ inject v).toNat < 2 ^ (5 * (k + 1)) := by
      rw [hturn, ← Nat.shiftLeft_add_eq_or_of_lt hv, Nat.shiftLeft_eq, Nat.mul_add, Nat.pow_add]
      omega
    rw [register, Superposition.run_cons, List.length_cons, show k + (ws.length + 1) =
      k + 1 + ws.length by omega, ih (fun b hb => hw b (by simp [hb])) hnext (by omega), hturn,
      show 5 * (k + 1) = 5 * k + 5 by omega, bits_feed hv, List.append_assoc]
    rfl

/-! Single errors. -/

/-- The last five bits of the generator rows are independent. -/
theorem rows_independent (b0 b1 b2 b3 b4 : Bool)
    (h : ((if b0 then 0x3b6a57b2 else 0) ^^^ (if b1 then 0x26508e6d else 0) ^^^
      (if b2 then 0x1ea119fa else 0) ^^^ (if b3 then 0x3d4233dd else 0) ^^^
      (if b4 then 0x2a1462b3 else 0) : BitVec 32) &&& 0x1f = 0) :
    b0 = false ∧ b1 = false ∧ b2 = false ∧ b3 = false ∧ b4 = false := by
  revert b0 b1 b2 b3 b4
  decide

theorem lt_of_advance {c : BitVec 32} (hc : c.toNat < 2 ^ 30) (h : advance c = 0) :
    c.toNat < 2 ^ 25 := by
  have hshift : ((c &&& 0x1ffffff) <<< 5) &&& 0x1f = 0 := by
    apply BitVec.eq_of_toNat_eq
    rw [BitVec.toNat_and, BitVec.toNat_shiftLeft, Nat.shiftLeft_eq,
      show (0x1f : BitVec 32).toNat = 2 ^ 5 - 1 from rfl, Nat.and_two_pow_sub_one_eq_mod]
    change _ = 0
    omega
  have hrows : (row c 0 0x3b6a57b2 ^^^ row c 1 0x26508e6d ^^^ row c 2 0x1ea119fa ^^^
      row c 3 0x3d4233dd ^^^ row c 4 0x2a1462b3) &&& 0x1f = 0 := by
    have hlow := congrArg (· &&& (0x1f : BitVec 32)) h
    simp only [advance_eq, BitVec.xor_assoc] at hlow ⊢
    rw [and_xor_distrib, hshift] at hlow
    simpa using hlow
  obtain ⟨h0, h1, h2, h3, h4⟩ := rows_independent _ _ _ _ _ hrows
  refine Nat.lt_pow_two_of_testBit _ fun i hi => ?_
  by_cases hlt : i < 30
  · have hcases : i = 25 ∨ i = 26 ∨ i = 27 ∨ i = 28 ∨ i = 29 := by omega
    rw [BitVec.testBit_toNat]
    rcases hcases with rfl | rfl | rfl | rfl | rfl
    · exact h0
    · exact h1
    · exact h2
    · exact h3
    · exact h4
  · have hpow : (2 : Nat) ^ 30 ≤ 2 ^ i := Nat.pow_le_pow_right (by decide) (by omega)
    exact Nat.testBit_lt_two_pow (hc.trans_le hpow)

theorem eq_zero_of_advance {c : BitVec 32} (hc : c.toNat < 2 ^ 30) (h : advance c = 0) : c = 0 := by
  have hturn := toNat_turn_small (lt_of_advance hc h) (show (0 : UInt8).toNat < 2 ^ 5 by decide)
  rw [h, show (0 : BitVec 32) ^^^ inject 0 = 0 from rfl, Nat.shiftLeft_eq] at hturn
  apply BitVec.eq_of_toNat_eq
  change 0 = c.toNat * 2 ^ 5 ||| 0 at hturn
  change c.toNat = 0
  rw [Nat.or_zero] at hturn
  omega

theorem advance_inj {a b : BitVec 32} (ha : a.toNat < 2 ^ 30) (hb : b.toNat < 2 ^ 30)
    (h : advance a = advance b) : a = b := by
  have hzero : advance (a ^^^ b) = 0 := by
    rw [advance_xor, h]
    exact BitVec.xor_self
  have hlt : (a ^^^ b).toNat < 2 ^ 30 := by
    rw [BitVec.toNat_xor]
    exact Nat.xor_lt_two_pow ha hb
  refine (BitVec.xor_left_inj b).mp ((eq_zero_of_advance hlt hzero).trans ?_)
  exact BitVec.xor_self.symm

theorem iterate_advance_inj {n : Nat} {a b : BitVec 32} (ha : a.toNat < 2 ^ 30)
    (hb : b.toNat < 2 ^ 30) (h : advance^[n] a = advance^[n] b) : a = b := by
  induction n generalizing a b with
  | zero => exact h
  | succ n ih => exact advance_inj ha hb (ih (advance_lt a) (advance_lt b) h)

/-- A checksum does not verify two texts that differ in one symbol. -/
theorem verifyChecksum_single {hrp vs ws : Bytes} {v v' : UInt8} (hv : v.toNat < 2 ^ 5)
    (hv' : v'.toNat < 2 ^ 5) (h : verifyChecksum hrp (vs ++ v :: ws) = true)
    (h' : verifyChecksum hrp (vs ++ v' :: ws) = true) : v = v' := by
  have hrun : register 1 (expandHRP hrp ++ vs ++ v :: ws) =
      register 1 (expandHRP hrp ++ vs ++ v' :: ws) := by
    simp only [verifyChecksum, decide_eq_true_eq, polyMod, foldl_polyModStep,
      ← List.append_assoc] at h h'
    rw [h, h']
  have htravel := Superposition.run_single inject advance_xor (fun _ => BitVec.xor_zero)
    (fun _ _ c => (BitVec.xor_right_inj c).mp) (fun _ _ c => (BitVec.xor_left_inj c).mp) hrun
  have hlt {v : UInt8} (hv : v.toNat < 2 ^ 5) : (inject v).toNat < 2 ^ 30 := by
    rw [toNat_inject]
    omega
  have hinject := congrArg BitVec.toNat (iterate_advance_inj (hlt hv) (hlt hv') htravel)
  rw [toNat_inject, toNat_inject] at hinject
  exact UInt8.toNat_inj.mp hinject

/-! The checksum. -/

theorem createChecksum_words (hrp values : Bytes) : Words 5 (createChecksum hrp values) := by
  intro b hb
  obtain ⟨i, -, rfl⟩ := List.mem_map.mp hb
  rw [BitVec.toNat_and]
  exact emit_words (t := 5) (by decide) _ _ (List.mem_singleton.mpr rfl)

theorem createChecksum_spelled (hrp values : Bytes) :
    spelled 5 (createChecksum hrp values) = BitList.bits 30
      (polyMod (expandHRP hrp ++ values ++ List.replicate 6 0) ^^^ 1).toNat := by
  generalize hmod : polyMod (expandHRP hrp ++ values ++ List.replicate 6 0) ^^^ 1 = mod
  have hletter (i : Nat) : spelled 5 [UInt8.ofNat ((mod >>> i &&& 31).toNat)] =
      BitList.bits 5 (mod.toNat >>> i) := by
    rw [BitVec.toNat_and, BitVec.toNat_ushiftRight]
    exact emit_spelled (by decide) _
  have hsplit (k i : Nat) : BitList.bits (k + 5) (mod.toNat >>> i) =
      BitList.bits k (mod.toNat >>> (i + 5)) ++ BitList.bits 5 (mod.toNat >>> i) := by
    rw [bits_add, Nat.shiftRight_add]
  have hcut : createChecksum hrp values =
      [UInt8.ofNat ((mod >>> 25 &&& 31).toNat)] ++ [UInt8.ofNat ((mod >>> 20 &&& 31).toNat)] ++
      [UInt8.ofNat ((mod >>> 15 &&& 31).toNat)] ++ [UInt8.ofNat ((mod >>> 10 &&& 31).toNat)] ++
      [UInt8.ofNat ((mod >>> 5 &&& 31).toNat)] ++ [UInt8.ofNat ((mod >>> 0 &&& 31).toNat)] := by
    rw [createChecksum, hmod]
    rfl
  simp only [hcut, spelled_append, hletter]
  rw [show BitList.bits 30 mod.toNat = BitList.bits 30 (mod.toNat >>> 0) from rfl, hsplit 25,
    hsplit 20, hsplit 15, hsplit 10, hsplit 5]

theorem length_createChecksum (hrp values : Bytes) : (createChecksum hrp values).length = 6 := by
  simp [createChecksum]

theorem register_lt {c : BitVec 32} {ws : Bytes} (hw : Words 5 ws) (hl : ws.length = 6) :
    (register c ws).toNat < 2 ^ 30 := by
  have hne : ws ≠ [] := by
    rintro rfl
    simp at hl
  rw [← List.dropLast_concat_getLast hne]
  exact register_concat_lt _ _ (hw _ (List.getLast_mem hne))

/-- Exactly the six symbols of `createChecksum` complete a valid text. -/
theorem verifyChecksum_append_iff {hrp values cs : Bytes} (hw : Words 5 cs) (hl : cs.length = 6) :
    verifyChecksum hrp (values ++ cs) = true ↔ cs = createChecksum hrp values := by
  have hzeros : Words 5 (List.replicate 6 0) := by
    intro b hb
    rw [List.eq_of_mem_replicate hb]
    decide
  -- the last six symbols act on the register on their own
  have hpoly : polyMod (expandHRP hrp ++ (values ++ cs)) =
      polyMod (expandHRP hrp ++ values ++ List.replicate 6 0) ^^^ register 0 cs := by
    simp only [polyMod, foldl_polyModStep, ← List.append_assoc]
    rw [register_append 1 (expandHRP hrp ++ values) cs, register_append 1 (expandHRP hrp ++ values)]
    exact Superposition.run_eq_op_of_rest inject advance_xor (fun _ => BitVec.xor_zero)
      (register_zeros 6) _ (by simp [hl])
  have hmod : (polyMod (expandHRP hrp ++ values ++ List.replicate 6 0) ^^^ 1).toNat < 2 ^ 30 := by
    rw [BitVec.toNat_xor]
    refine Nat.xor_lt_two_pow ?_ (by decide)
    rw [polyMod, List.foldl_append, foldl_polyModStep]
    exact register_lt hzeros (by simp)
  have hown := register_spells hw (c := 0) (k := 0) (by decide) (by omega)
  rw [hl] at hown
  simp only [verifyChecksum, decide_eq_true_eq, hpoly]
  constructor
  · intro h
    have hcs : register 0 cs =
        polyMod (expandHRP hrp ++ values ++ List.replicate 6 0) ^^^ 1 := by
      rw [← h, ← BitVec.xor_assoc, BitVec.xor_self, BitVec.zero_xor]
    have hspell : spelled 5 cs = spelled 5 (createChecksum hrp values) := by
      rw [createChecksum_spelled, ← hcs]
      exact hown.symm
    exact (spelled_append_inj (p := []) (q := []) (by decide) (by decide) hw
      (createChecksum_words hrp values) (by simpa using hspell)).1
  · intro h
    have hcs : register 0 cs =
        polyMod (expandHRP hrp ++ values ++ List.replicate 6 0) ^^^ 1 := by
      apply BitVec.eq_of_toNat_eq
      apply bits_inj (register_lt hw hl) hmod
      rw [← createChecksum_spelled, ← h]
      exact hown
    rw [hcs, ← BitVec.xor_assoc, BitVec.xor_self, BitVec.zero_xor]

theorem verifyChecksum_encode (hrp values : Bytes) :
    verifyChecksum hrp (values ++ createChecksum hrp values) = true :=
  (verifyChecksum_append_iff (createChecksum_words hrp values)
    (length_createChecksum hrp values)).mpr rfl

/-! The text. -/

theorem rfind_append {c : UInt8} {s t : Bytes} (h : c ∉ t) :
    rfind c (s ++ c :: t) = some s.length := by
  have hnone : rfind c t = none := by
    induction t with
    | nil => rfl
    | cons b t ih =>
      rw [rfind, ih fun hm => h (by simp [hm]), if_neg fun hb => h (by simp [hb])]
  induction s with
  | nil => simp [rfind, hnone]
  | cons b s ih => simp [rfind, ih]

theorem rfind_spec {c : UInt8} {s : Bytes} {pos : Nat} (h : rfind c s = some pos) :
    s = s.take pos ++ c :: s.drop (pos + 1) := by
  induction s generalizing pos with
  | nil => simp [rfind] at h
  | cons b s ih =>
    rw [rfind] at h
    split at h
    · rename_i i hi
      obtain rfl := Option.some.inj h
      simpa using ih hi
    · split at h
      · obtain rfl := Option.some.inj h
        simp [*]
      · cases h

theorem letter_inj {v w : UInt8} (hv : v.toNat < 2 ^ 5) (hw : w.toNat < 2 ^ 5)
    (h : letter v = letter w) : v = w := by
  have all : ∀ m < 32, ∀ n < 32, charset.getD m 0 = charset.getD n 0 → m = n := by decide +kernel
  exact UInt8.toNat_inj.mp (all _ hv _ hw h)

theorem map_letter_inj {vs ws : Bytes} (hv : Words 5 vs) (hw : Words 5 ws)
    (h : vs.map letter = ws.map letter) : vs = ws := by
  induction vs generalizing ws with
  | nil => exact (List.map_eq_nil_iff.mp h.symm).symm
  | cons v vs ih =>
    obtain ⟨w, ws, rfl, hletter, hrest⟩ := List.map_eq_cons_iff.mp h.symm
    rw [letter_inj (hv v (by simp)) (hw w (by simp)) hletter.symm,
      ih (fun b hb => hv b (by simp [hb])) (fun b hb => hw b (by simp [hb])) hrest.symm]

theorem letter_mem {v : UInt8} (hv : v.toNat < 2 ^ 5) : letter v ∈ charset := by
  have all : ∀ n < 32, charset.getD n 0 ∈ charset := by decide +kernel
  exact all _ hv

theorem charValue_eq_some_iff {c v : UInt8} :
    charValue c = some v ↔ v.toNat < 2 ^ 5 ∧ lowerCase c = letter v := by
  have hnone : ∀ c, charValue c = none → lowerCase c ∉ charset := forall_byte (by decide +kernel)
  have hsome : ∀ c, (charValue c).all (fun w => w.toNat < 2 ^ 5 ∧ lowerCase c = letter w) = true :=
    forall_byte (by decide +kernel)
  cases h : charValue c with
  | none =>
    refine ⟨fun h => (by cases h), fun ⟨hv, hl⟩ => absurd ?_ (hnone c h)⟩
    rw [hl]
    exact letter_mem hv
  | some w =>
    have hc := hsome c
    rw [h] at hc
    obtain ⟨hw, hlw⟩ := of_decide_eq_true hc
    constructor
    · intro hv
      rw [← Option.some.inj hv]
      exact ⟨hw, hlw⟩
    · intro ⟨hv, hl⟩
      rw [letter_inj hw hv (hlw.symm.trans hl)]

theorem charValues_eq_some_iff {s ws : Bytes} :
    s.mapM charValue = some ws ↔ Words 5 ws ∧ s.map lowerCase = ws.map letter := by
  induction s generalizing ws with
  | nil =>
    simp only [List.mapM_nil, List.map_nil, pure, Option.some.injEq, List.nil_eq,
      List.map_eq_nil_iff]
    exact ⟨fun h => ⟨by simp [h, Words], h⟩, fun h => h.2⟩
  | cons c s ih =>
    rw [List.mapM_cons]
    cases ws with
    | nil => cases charValue c <;> cases List.mapM charValue s <;> simp [bind, Option.bind]
    | cons w ws =>
      have hcons : (do
          let v ← charValue c
          let vs ← s.mapM charValue
          pure (v :: vs)) = some (w :: ws) ↔
          charValue c = some w ∧ s.mapM charValue = some ws := by
        cases charValue c <;> cases s.mapM charValue <;> simp [bind, Option.bind]
      rw [hcons, ih, charValue_eq_some_iff]
      simp [Words]
      tauto

def OneCase (s : Bytes) : Prop := (s.any isLower && s.any isUpper) = false

/-- `str` spells the encoding of `hrp` and `values`, up to the letter case. -/
structure Spelling (hrp values str : Bytes) : Prop where
  inRange : ∀ c ∈ str, outOfRange c = false
  oneCase : OneCase str
  short : str.length ≤ 90
  words : Words 5 values
  text : str.map lowerCase = encode hrp values

theorem lowerCase_eq_separator {c : UInt8} (h : lowerCase c = separator) : c = separator := by
  have all : ∀ c, lowerCase c = separator → c = separator := forall_byte (by decide +kernel)
  exact all c h

theorem separator_not_letter {v : UInt8} (hv : v.toNat < 2 ^ 5) : letter v ≠ separator := by
  have all : ∀ n < 32, charset.getD n 0 ≠ separator := by decide +kernel
  exact all _ hv

theorem spelling_of_decode {hrp values str : Bytes} (hh : hrp ≠ [])
    (h : decode str = (hrp, values)) : Spelling hrp values str := by
  have hfail : ([], []) ≠ (hrp, values) := fun h => hh (Prod.mk.inj h).1.symm
  unfold decode at h
  split at h
  · exact absurd h hfail
  rename_i hrange
  split at h
  · exact absurd h hfail
  rename_i hcase
  split at h
  · exact absurd h hfail
  rename_i pos hpos
  split at h
  · exact absurd h hfail
  rename_i hlen
  simp only [not_or, not_lt] at hlen
  split at h
  · exact absurd h hfail
  rename_i ws hws
  dsimp only at h
  split at h
  · rename_i hsum
    obtain ⟨hw, htext⟩ := charValues_eq_some_iff.mp hws
    obtain ⟨rfl, rfl⟩ := Prod.mk.inj h
    have hlw : ws.length + (pos + 1) = str.length := by
      have := congrArg List.length htext
      simp only [List.length_map, List.length_drop] at this
      omega
    have hcut : ws.take (ws.length - 6) ++ ws.drop (ws.length - 6) = ws :=
      List.take_append_drop _ _
    have hw' := words_append.mp (hcut.symm ▸ hw)
    rw [← hcut, verifyChecksum_append_iff hw'.2 (by rw [List.length_drop]; omega)] at hsum
    refine ⟨by simpa using hrange, by simpa [OneCase] using hcase, hlen.1, hw'.1, ?_⟩
    conv_lhs => rw [rfind_spec hpos]
    rw [encode, ← hsum, hcut, ← htext, List.map_append, List.map_cons]
    rfl
  · exact absurd h hfail

theorem decode_of_spelling {hrp values str : Bytes} (hh : hrp ≠ [])
    (h : Spelling hrp values str) : decode str = (hrp, values) := by
  obtain ⟨hrange, hcase, hlen, hw, htext⟩ := h
  obtain ⟨pre, rest, rfl, hpre, hrest⟩ := List.map_eq_append_iff.mp htext
  obtain ⟨c, data, rfl, hc, hdata⟩ := List.map_eq_cons_iff.mp hrest
  obtain rfl := lowerCase_eq_separator hc
  have hall : Words 5 (values ++ createChecksum hrp values) :=
    words_append.mpr ⟨hw, createChecksum_words hrp values⟩
  have hno : separator ∉ data := by
    intro hmem
    have hm := List.mem_map_of_mem (f := lowerCase) hmem
    rw [hdata, List.mem_map] at hm
    obtain ⟨v, hv, hl⟩ := hm
    exact separator_not_letter (hall v hv) (by rw [hl]; rfl)
  have hld : data.length = values.length + 6 := by
    have := congrArg List.length hdata
    simpa [length_createChecksum] using this
  have hlp : pre.length ≠ 0 := by
    intro h0
    rw [List.length_eq_zero_iff.mp h0] at hpre
    exact hh hpre.symm
  have hvalues := charValues_eq_some_iff.mpr ⟨hall, hdata⟩
  have hdrop : (pre ++ separator :: data).drop (pre.length + 1) = data := by simp
  have htake : (pre ++ separator :: data).take pre.length = pre := by simp
  have hany : ¬ (pre ++ separator :: data).any outOfRange = true := by
    rw [List.any_eq_true]
    rintro ⟨b, hb, ho⟩
    rw [hrange b hb] at ho
    cases ho
  rw [List.length_append, List.length_cons] at hlen
  rw [decode, if_neg hany, if_neg (by simpa [OneCase] using hcase),
    rfind_append hno]
  simp only [List.length_append, List.length_cons, hdrop, htake, hvalues, hpre]
  rw [if_neg (by omega), if_pos (verifyChecksum_encode hrp values), length_createChecksum]
  simp

/-- `decode` accepts the spellings of encodings and nothing else. -/
theorem decode_eq_iff {hrp values str : Bytes} (hh : hrp ≠ []) :
    decode str = (hrp, values) ↔ Spelling hrp values str :=
  ⟨spelling_of_decode hh, decode_of_spelling hh⟩

def Plain (s : Bytes) : Prop := ∀ c ∈ s, outOfRange c = false ∧ isUpper c = false

theorem Plain.lowerCase {s : Bytes} (h : Plain s) : s.map lowerCase = s := by
  rw [List.map_eq_iff]
  intro i
  cases hi : s[i]? with
  | none => rfl
  | some c =>
    rw [Option.map_some, Bech32.lowerCase, (h c (List.mem_of_getElem? hi)).2]
    rfl

theorem Plain.oneCase {s : Bytes} (h : Plain s) : OneCase s := by
  have hup : s.any isUpper = false := by
    rw [List.any_eq_false]
    intro c hc
    simp [(h c hc).2]
  rw [OneCase, hup, Bool.and_false]

theorem encode_plain {hrp values : Bytes} (hh : Plain hrp) (hw : Words 5 values) :
    Plain (encode hrp values) := by
  have all : ∀ n < 32,
      outOfRange (charset.getD n 0) = false ∧ isUpper (charset.getD n 0) = false := by
    decide +kernel
  intro c hc
  rw [encode, List.mem_append, List.mem_cons, List.mem_map] at hc
  rcases hc with hc | rfl | ⟨v, hv, rfl⟩
  · exact hh c hc
  · decide
  · exact all _ (words_append.mpr ⟨hw, createChecksum_words hrp values⟩ v hv)

theorem length_encode (hrp values : Bytes) :
    (encode hrp values).length = hrp.length + values.length + 7 := by
  simp only [encode, List.length_append, List.length_cons, List.length_map, length_createChecksum]
  omega

theorem spelling_encode {hrp values : Bytes} (hh : Plain hrp) (hw : Words 5 values)
    (hl : hrp.length + values.length + 7 ≤ 90) : Spelling hrp values (encode hrp values) :=
  have hp := encode_plain hh hw
  ⟨fun c hc => (hp c hc).1, hp.oneCase, by rwa [length_encode], hw, hp.lowerCase⟩

theorem decode_encode {hrp values : Bytes} (hne : hrp ≠ []) (hh : Plain hrp) (hw : Words 5 values)
    (hl : hrp.length + values.length + 7 ≤ 90) : decode (encode hrp values) = (hrp, values) :=
  (decode_eq_iff hne).mpr (spelling_encode hh hw hl)

theorem Spelling.length {hrp values str : Bytes} (h : Spelling hrp values str) :
    str.length = hrp.length + values.length + 7 := by
  rw [← length_encode, ← h.text, List.length_map]

/-! Texts that differ in one character. -/

theorem append_single {p d d' s t : Bytes} {b c : UInt8} (h : p ++ d = s ++ b :: t)
    (h' : p ++ d' = s ++ c :: t) : b = c ∨ ∃ r, d = r ++ b :: t ∧ d' = r ++ c :: t := by
  induction p generalizing s with
  | nil => exact .inr ⟨s, h, h'⟩
  | cons x p ih =>
    cases s with
    | nil => exact .inl ((List.cons.inj h).1.symm.trans (List.cons.inj h').1)
    | cons y s => exact ih (List.cons.inj h).2 (List.cons.inj h').2

theorem encode_single {hrp values values' s t : Bytes} {b c : UInt8} (hw : Words 5 values)
    (hw' : Words 5 values') (h : encode hrp values = s ++ b :: t)
    (h' : encode hrp values' = s ++ c :: t) : b = c := by
  have hall := words_append.mpr ⟨hw, createChecksum_words hrp values⟩
  have hall' := words_append.mpr ⟨hw', createChecksum_words hrp values'⟩
  have hsum := verifyChecksum_encode hrp values
  have hsum' := verifyChecksum_encode hrp values'
  rw [encode, ← List.singleton_append, ← List.append_assoc] at h h'
  rcases append_single h h' with heq | ⟨r, hdata, hdata'⟩
  · exact heq
  obtain ⟨vs, ws, hcut, hvs, hrest⟩ := List.map_eq_append_iff.mp hdata
  obtain ⟨v, ws, rfl, rfl, hws⟩ := List.map_eq_cons_iff.mp hrest
  obtain ⟨vs', ws', hcut', hvs', hrest'⟩ := List.map_eq_append_iff.mp hdata'
  obtain ⟨v', ws', rfl, rfl, hws'⟩ := List.map_eq_cons_iff.mp hrest'
  rw [hcut] at hall hsum
  rw [hcut'] at hall' hsum'
  obtain ⟨hleft, hright⟩ := words_append.mp hall
  obtain ⟨hleft', hright'⟩ := words_append.mp hall'
  rw [map_letter_inj hleft' hleft (hvs'.trans hvs.symm),
    map_letter_inj (fun b hb => hright' b (by simp [hb])) (fun b hb => hright b (by simp [hb]))
      (hws'.trans hws.symm)] at hsum'
  rw [verifyChecksum_single (hright v (by simp)) (hright' v' (by simp)) hsum hsum']

end MxSdk.Bech32
