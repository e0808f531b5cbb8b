import MxSdk.Vendor.Bech32
import MxSdk.Lib.ErrorPattern
import MxSdk.Lib.ResidueFilter

/-! The distance of the checksum. Two values lists with one checksum, of at most 58 letters
each, are the same or differ in more than four letters. The register multiplies its
symbols by powers of two, so a table of 57 rows decides it. -/

namespace MxSdk.Bech32
open Bits ErrorPattern

/-- Each of the six letters in the register, doubled. -/
def scale (c : BitVec 32) : BitVec 32 :=
  ((c &&& 0x1ef7bdef) <<< 1) ^^^
    (((c >>> 4) &&& 0x02108421) ^^^ (((c >>> 4) &&& 0x02108421) <<< 3))

theorem scale_xor (a b : BitVec 32) : scale (a ^^^ b) = scale a ^^^ scale b := by
  simp only [scale, and_xor_distrib, BitVec.shiftLeft_xor_distrib, BitVec.ushiftRight_xor_distrib]
  ac_rfl

theorem scale_advance : Function.Commute scale advance := by
  refine funext_iff.mp (funext_of_twoPow (fun a b => ?_) (fun a b => ?_) (by decide +kernel))
  · rw [advance_xor, scale_xor]
  · rw [scale_xor, advance_xor]

def codeRegister : Register 32 where
  turn := advance
  turn_xor := advance_xor
  Held c := c.toNat < 2 ^ 30
  held_turn := advance_lt
  held_xor a b ha hb := by
    rw [BitVec.toNat_xor]
    exact Nat.xor_lt_two_pow ha hb
  turn_inj a b := advance_inj
  scale := scale
  scale_xor := scale_xor
  scale_turn := scale_advance
  one := 1
  one_ne := by decide
  period := 31
  period_pos := by decide
  periodic := by
    change scale^[31] 1 = 1
    decide +kernel
  held_scale := by decide +kernel
  beyond c := c >>> 5
  beyond_xor a b := BitVec.ushiftRight_xor_distrib a b 5
  beyond_scale := by decide +kernel

theorem inject_xor (v v' : UInt8) : inject v ^^^ inject v' = inject (v ^^^ v') := by
  rw [inject, inject, inject, UInt8.toBitVec_xor, BitVec.setWidth_xor]

/-- The powers of two run through the letters. -/
theorem symbol_inject {v v' : UInt8} (hv : v.toNat < 2 ^ 5) (hv' : v'.toNat < 2 ^ 5)
    (hne : v ≠ v') : codeRegister.Symbol (inject v ^^^ inject v') := by
  have powers : ∀ v : UInt8, v.toNat < 2 ^ 5 → v ≠ 0 → ∃ k < 31, scale^[k] 1 = inject v :=
    forall_byte (by decide +kernel)
  rw [inject_xor]
  refine powers _ ?_ fun h => hne (UInt8.xor_eq_zero_iff.mp h)
  rw [UInt8.toNat_xor]
  exact Nat.xor_lt_two_pow hv hv'

def numbers (c : BitVec 32) : List Nat :=
  (List.iterate scale c 31).map fun x : BitVec 32 => (x >>> 5).toNat

/-- The rows of one to `n` turns. -/
def table (n : Nat) : List (List Nat) := (List.iterate advance (advance 1) n).map numbers

/-- Each row with the heads of the rows after it. -/
def apart (clear : Nat → Bool) : List (List Nat) → Bool
  | [] => true
  | r :: rows => (rows.all fun u => r.all fun x => clear (Nat.xor (u.headD 0) x)) && apart clear rows

def moduli : List Nat := [16381, 16369, 16363, 16361, 16349, 16339]

def filters : List (Nat × Nat) :=
  moduli.map fun p => (p, ResidueFilter.union p ([0] :: table 57))

theorem table_apart : apart (ResidueFilter.clear filters) (table 57) = true := by
  decide +kernel

theorem table_heads : (table 57).all (fun r => r.headD 0 != 0) = true := by decide +kernel

theorem pairwise_of_apart {clear : Nat → Bool} {rows : List (List Nat)}
    (h : apart clear rows = true) :
    rows.Pairwise fun r u => ∀ x ∈ r, clear (Nat.xor (u.headD 0) x) = true := by
  induction rows with
  | nil => exact List.Pairwise.nil
  | cons r rows ih =>
    rw [apart, Bool.and_eq_true] at h
    refine List.pairwise_cons.mpr ⟨fun u hu x hx => ?_, ih h.2⟩
    exact List.all_eq_true.mp (List.all_eq_true.mp h.1 u hu) x hx

theorem getElem_table {d n : Nat} (hd : d < (table n).length) :
    (table n)[d] = numbers (advance^[d + 1] 1) := by
  simp only [table, List.getElem_map, List.getElem_iterate, Function.iterate_succ_apply]

theorem length_table (n : Nat) : (table n).length = n := by simp [table]

theorem mem_table {d n : Nat} (hd : 0 < d) (hn : d ≤ n) : numbers (advance^[d] 1) ∈ table n := by
  obtain ⟨d, rfl⟩ := Nat.exists_eq_succ_of_ne_zero hd.ne'
  have hlt : d < (table n).length := (length_table n).symm ▸ hn
  exact getElem_table hlt ▸ List.getElem_mem hlt

theorem headD_numbers (c : BitVec 32) : (numbers c).headD 0 = (c >>> 5).toNat := rfl

theorem mem_numbers {d : Nat} {x : BitVec 32} (h : x ∈ codeRegister.row d) :
    x.toNat ∈ numbers (advance^[d] 1) := by
  obtain ⟨y, hy, rfl⟩ := List.mem_map.mp h
  exact List.mem_map.mpr ⟨y, hy, rfl⟩

theorem not_mem_of_table {e d : Nat} (he : 0 < e) (hed : e < d) (hd : d < 58) {x : BitVec 32}
    (hx : x ∈ codeRegister.row e) {r : List Nat} (hr : r ∈ [0] :: table 57) :
    (advance^[d] 1 >>> 5 ^^^ x).toNat ∉ r := by
  obtain ⟨e, rfl⟩ := Nat.exists_eq_succ_of_ne_zero he.ne'
  obtain ⟨d, rfl⟩ := Nat.exists_eq_succ_of_ne_zero (he.trans hed).ne'
  have hpair := List.pairwise_iff_getElem.mp (pairwise_of_apart table_apart) e d
    (by rw [length_table]; omega) (by rw [length_table]; omega) (by omega)
  simp only [getElem_table, headD_numbers] at hpair
  rw [BitVec.toNat_xor]
  exact ResidueFilter.not_mem_of_clear (hpair _ (mem_numbers hx)) hr

theorem separates : codeRegister.Separates 58 where
  two d hpos hd hzero := by
    have hhead := List.all_eq_true.mp table_heads _ (mem_table hpos (by omega : d ≤ 57))
    rw [headD_numbers] at hhead
    change advance^[d] 1 >>> 5 = 0#32 at hzero
    rw [hzero] at hhead
    cases hhead
  three e d he hed hd x hx hzero := by
    refine not_mem_of_table he hed hd hx (List.mem_cons_self ..) ?_
    change advance^[d] 1 >>> 5 ^^^ x = 0#32 at hzero
    rw [hzero]
    exact List.mem_singleton_self _
  four e d he hed hd x hx c hc hcd hmem :=
    not_mem_of_table he hed hd hx (List.mem_cons_of_mem _ (mem_table hc (by omega)))
      (mem_numbers hmem)

theorem verifyChecksum_few {hrp vs vs' : Bytes} (hv : Words 5 vs) (hv' : Words 5 vs')
    (hlen : vs.length = vs'.length) (hshort : vs.length ≤ 58) (hclose : mismatches vs vs' ≤ 4)
    (h : verifyChecksum hrp vs = true) (h' : verifyChecksum hrp vs' = true) : vs = vs' := by
  simp only [verifyChecksum, decide_eq_true_eq, polyMod, foldl_polyModStep, register_append]
    at h h'
  exact separates.eq_of_run hlen hshort
    (fun v hmem v' hmem' hne => symbol_inject (hv v hmem) (hv' v' hmem') hne) hclose
    (h.trans h'.symm)

/-- Two encodings of up to 58 letters are the same or differ in more than four. -/
theorem encode_few {hrp values values' : Bytes} (hw : Words 5 values) (hw' : Words 5 values')
    (hlen : values.length = values'.length) (hshort : values.length ≤ 52)
    (hclose : mismatches (encode hrp values) (encode hrp values') ≤ 4) : values = values' := by
  have hall := words_append.mpr ⟨hw, createChecksum_words hrp values⟩
  have hall' := words_append.mpr ⟨hw', createChecksum_words hrp values'⟩
  rw [encode, encode, mismatches_append, mismatches_cons, if_pos rfl, Nat.add_zero] at hclose
  have hletters := mismatches_map (f := letter) fun v hv v' hv' =>
    letter_inj (hall v hv) (hall' v' hv')
  have heq := verifyChecksum_few hall hall' (by simp [hlen, length_createChecksum])
    (by simpa [length_createChecksum] using hshort) (hletters.trans hclose)
    (verifyChecksum_encode hrp values) (verifyChecksum_encode hrp values')
  exact (List.append_inj heq hlen).1

end MxSdk.Bech32
