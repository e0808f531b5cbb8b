import MxSdk.Lib.Rfc4648
import MxSdk.Utils.Bits
import Mathlib.Tactic.IntervalCases

/-! `util::base64::encode` and `decode`. The accumulator `val` is an `int` that
neither loop masks: it is a 32-bit word here, wrapping on the left shift and
extending its sign on the right shift. Only its low bits are ever read, so the
loops still regroup bytes into six-bit letters and back. -/

namespace MxSdk.Base64
open BitList Bits

def alphabet : Bytes := ascii "ABCDEFGHIJKLMNOPQRSTUVWXYZabcdefghijklmnopqrstuvwxyz0123456789+/"

def pad : UInt8 := 61

structure Encoder where
  val : BitVec 32
  valb : Int
  out : Bytes

/-- The inner loop `while (valb >= 0)` of `encode`. -/
def flush (val : BitVec 32) (valb : Int) (out : Bytes) : Int × Bytes :=
  if 0 ≤ valb then
    flush val (valb - 6) (out ++ [alphabet.getD (val.sshiftRight valb.toNat &&& 0x3f).toNat 0])
  else (valb, out)
termination_by (valb + 6).toNat

def Encoder.push (e : Encoder) (c : UInt8) : Encoder :=
  let val := (e.val <<< 8) + BitVec.ofNat 32 c.toNat
  let (valb, out) := flush val (e.valb + 8) e.out
  ⟨val, valb, out⟩

def Encoder.last (e : Encoder) : Bytes :=
  if -6 < e.valb then
    e.out ++ [alphabet.getD ((e.val <<< 8).sshiftRight (e.valb + 8).toNat &&& 0x3f).toNat 0]
  else e.out

/-- `while (out.size() % 4) out.push_back('=')`. -/
def padOut (out : Bytes) : Bytes :=
  if out.length % 4 ≠ 0 then padOut (out ++ [pad]) else out
termination_by (4 - out.length % 4) % 4
decreasing_by
  simp only [List.length_append, List.length_singleton]
  omega

def encode (s : Bytes) : Bytes := padOut (s.foldl Encoder.push ⟨0, -6, []⟩).last

/-- The table `T`: the index of a letter, and -1 for every other byte. -/
def table : List Int :=
  (List.range 64).foldl (fun t i => t.set (alphabet.getD i 0).toNat i) (List.replicate 256 (-1))

structure Decoder where
  val : BitVec 32
  valb : Int
  out : Bytes

def Decoder.push (d : Decoder) (t : Int) : Decoder :=
  let val := (d.val <<< 6) + BitVec.ofInt 32 t
  let valb := d.valb + 6
  if 0 ≤ valb then
    ⟨val, valb - 8, d.out ++ [UInt8.ofNat (val.sshiftRight valb.toNat &&& 0xff).toNat]⟩
  else ⟨val, valb, d.out⟩

/-- The loop of `decode`, which breaks at the first byte outside the alphabet. -/
def decodeLoop (d : Decoder) : Bytes → Bytes
  | [] => d.out
  | c :: s =>
    if table.getD c.toNat (-1) = -1 then d.out
    else decodeLoop (d.push (table.getD c.toNat (-1))) s

def decode (s : Bytes) : Bytes := decodeLoop ⟨0, -8, []⟩ s

theorem toNat_feed (val : BitVec 32) {w c : Nat} (hw : w ≤ 8) (hc : c < 2 ^ w) :
    ((val <<< w) + BitVec.ofNat 32 c).toNat = (val.toNat <<< w ||| c) % 2 ^ 32 := by
  have h8 : (2 : Nat) ^ w ≤ 2 ^ 8 := Nat.pow_le_pow_right (by decide) hw
  rw [BitVec.toNat_add, BitVec.toNat_shiftLeft, BitVec.toNat_ofNat,
    ← Nat.shiftLeft_add_eq_or_of_lt hc, Nat.mod_eq_of_lt (by omega : c < 2 ^ 32)]
  omega

theorem bits_val_feed (val : BitVec 32) {p w c : Nat} (hw : w ≤ 8) (hc : c < 2 ^ w)
    (hp : p + w ≤ 32) :
    BitList.bits (p + w) ((val <<< w) + BitVec.ofNat 32 c).toNat =
      BitList.bits p val.toNat ++ BitList.bits w c := by
  rw [toNat_feed val hw hc, bits_mod hp, bits_feed hc]

theorem toNat_window (val : BitVec 32) {k w : Nat} (h : k + w ≤ 32) {mask : BitVec 32}
    (hmask : mask.toNat = 2 ^ w - 1) :
    (val.sshiftRight k &&& mask).toNat = (val.toNat >>> k) % 2 ^ w := by
  apply Nat.eq_of_testBit_eq
  intro i
  rw [BitVec.toNat_and, hmask, Nat.testBit_and, Nat.testBit_two_pow_sub_one,
    Nat.testBit_mod_two_pow, Nat.testBit_shiftRight, BitVec.testBit_toNat,
    BitVec.getLsbD_sshiftRight, BitVec.testBit_toNat]
  by_cases hi : i < w
  · simp [hi, show i < 32 by omega, show k + i < 32 by omega]
  · simp [hi]

def letter (i : UInt8) : UInt8 := alphabet.getD i.toNat 0

theorem letter_window (val : BitVec 32) {k : Nat} (h : k + 6 ≤ 32) :
    alphabet.getD (val.sshiftRight k &&& 0x3f).toNat 0 =
      letter (UInt8.ofNat ((val.toNat >>> k) &&& (1 <<< 6 - 1))) := by
  rw [letter, toNat_emit (by decide), toNat_window (w := 6) val h rfl]

/-- The invariant of the encoder after `data`, with the words it has written. -/
structure Encoder.Spells (e : Encoder) (idx data : Bytes) : Prop where
  lower : -6 ≤ e.valb
  upper : e.valb < 0
  written : e.out = idx.map letter
  words : Words 6 idx
  spells : spelled 6 idx ++ BitList.bits (e.valb + 6).toNat e.val.toNat = spelled 8 data

theorem encoder_start : (⟨0, -6, []⟩ : Encoder).Spells [] [] :=
  ⟨by decide, by decide, rfl, by simp [Words], rfl⟩

theorem flush_spec (val : BitVec 32) {valb : Int} (hl : -6 ≤ valb) (hu : valb ≤ 26)
    (idx : Bytes) (hw : Words 6 idx) :
    ∃ v idx', flush val valb (idx.map letter) = (v, idx'.map letter) ∧ -6 ≤ v ∧ v < 0 ∧
      Words 6 idx' ∧
      spelled 6 idx' ++ BitList.bits (v + 6).toNat val.toNat =
        spelled 6 idx ++ BitList.bits (valb + 6).toNat val.toNat := by
  induction hn : (valb + 6).toNat using Nat.strong_induction_on generalizing valb idx with
  | _ n ih =>
    unfold flush
    split
    · rename_i h
      let word := UInt8.ofNat ((val.toNat >>> valb.toNat) &&& (1 <<< 6 - 1))
      obtain ⟨v, idx', hf, hvl, hvu, hw', hs⟩ := ih (valb - 6 + 6).toNat (by omega)
        (by omega) (by omega) (idx ++ [word])
        (words_append.mpr ⟨hw, emit_words (by decide) _⟩) rfl
      refine ⟨v, idx', ?_, hvl, hvu, hw', ?_⟩
      · rw [letter_window val (by omega)]
        simpa [word] using hf
      · rw [hs, spelled_append, emit_spelled (by decide), List.append_assoc,
          show (valb - 6 + 6).toNat = valb.toNat by omega, ← bits_add]
        congr 2
        omega
    · exact ⟨valb, idx, rfl, hl, by omega, hw, by rw [hn]⟩

theorem push_spells {e : Encoder} {idx data : Bytes} (he : e.Spells idx data) (c : UInt8) :
    ∃ idx', (e.push c).Spells idx' (data ++ [c]) := by
  obtain ⟨hl, hu, hout, hw, hs⟩ := he
  obtain ⟨v, idx', hf, hvl, hvu, hw', hs'⟩ := flush_spec
    ((e.val <<< 8) + BitVec.ofNat 32 c.toNat) (show -6 ≤ e.valb + 8 by omega) (by omega) idx hw
  refine ⟨idx', ?_⟩
  simp only [Encoder.push, hout, hf]
  refine ⟨hvl, hvu, rfl, hw', hs'.trans ?_⟩
  rw [show (e.valb + 8 + 6).toNat = (e.valb + 6).toNat + 8 by omega,
    bits_val_feed _ (by decide) c.toNat_lt (by omega), ← List.append_assoc, hs,
    spelled_append, spelled_singleton]

theorem pushAll_spells {e : Encoder} {idx done : Bytes} (he : e.Spells idx done) (data : Bytes) :
    ∃ idx', (data.foldl Encoder.push e).Spells idx' (done ++ data) := by
  induction data generalizing e idx done with
  | nil => exact ⟨idx, by simpa using he⟩
  | cons c data ih =>
    obtain ⟨idx₁, h₁⟩ := push_spells he c
    obtain ⟨idx', h'⟩ := ih h₁
    exact ⟨idx', by simpa using h'⟩

theorem padOut_eq (out : Bytes) :
    padOut out = out ++ List.replicate ((4 - out.length % 4) % 4) pad := by
  induction hn : (4 - out.length % 4) % 4 using Nat.strong_induction_on generalizing out with
  | _ n ih =>
    unfold padOut
    split
    · rw [ih ((4 - (out ++ [pad]).length % 4) % 4) (by simp; omega) _ rfl, List.append_assoc,
        List.singleton_append, ← List.replicate_succ]
      congr 2
      simp
      omega
    · rw [show n = 0 by omega]
      simp

/-- The text of `s`: the letters of its bits, zero padded to whole letters, and
`=` up to a multiple of four. -/
theorem encode_spec (s : Bytes) :
    ∃ idx k, Words 6 idx ∧ k < 6 ∧ spelled 6 idx = spelled 8 s ++ List.replicate k false ∧
      encode s = idx.map letter ++ List.replicate ((4 - idx.length % 4) % 4) pad := by
  obtain ⟨idx, he⟩ := pushAll_spells encoder_start s
  rw [List.nil_append] at he
  rw [encode]
  generalize s.foldl Encoder.push ⟨0, -6, []⟩ = e at he
  obtain ⟨hl, hu, hout, hw, hs⟩ := he
  by_cases hv : -6 < e.valb
  · let word := UInt8.ofNat (((e.val <<< 8).toNat >>> (e.valb + 8).toNat) &&& (1 <<< 6 - 1))
    have hbits : BitList.bits 6 ((e.val <<< 8).toNat >>> (e.valb + 8).toNat) =
        BitList.bits (e.valb + 6).toNat e.val.toNat ++
          List.replicate (-e.valb).toNat false := by
      have hfeed := bits_feed (f := (-e.valb).toNat) (Nat.two_pow_pos _) (e.valb + 6).toNat
        e.val.toNat
      rw [Nat.or_zero, bits_zero, show (e.valb + 6).toNat + (-e.valb).toNat = 6 by omega] at hfeed
      rw [← hfeed, bits_eq_iff]
      intro i hi
      simp only [BitVec.toNat_shiftLeft, Nat.testBit_shiftRight, Nat.testBit_mod_two_pow,
        Nat.testBit_shiftLeft]
      rw [show (e.valb + 8).toNat + i - 8 = i - (-e.valb).toNat by omega]
      simp only [show (e.valb + 8).toNat + i < 32 by omega, decide_true, Bool.true_and]
      congr 1
      exact decide_eq_decide.mpr (by omega)
    refine ⟨idx ++ [word], (-e.valb).toNat, words_append.mpr ⟨hw, emit_words (by decide) _⟩,
      by omega, ?_, ?_⟩
    · rw [spelled_append, emit_spelled (by decide), hbits, ← List.append_assoc, hs]
    · rw [Encoder.last, if_pos hv, letter_window _ (by omega), hout, padOut_eq]
      simp [word]
  · refine ⟨idx, 0, hw, by decide, ?_, ?_⟩
    · rw [show (e.valb + 6).toNat = 0 by omega] at hs
      simpa [BitList.bits] using hs
    · rw [Encoder.last, if_neg hv, hout, padOut_eq, List.length_map]

theorem table_letter {i : UInt8} (hi : i.toNat < 2 ^ 6) :
    table.getD (letter i).toNat (-1) = i.toNat := by
  have h : ∀ n < 64, table.getD (alphabet.getD n 0).toNat (-1) = (n : Int) := by decide +kernel
  exact h i.toNat hi

theorem table_pad : table.getD pad.toNat (-1) = -1 := by decide +kernel

structure Decoder.Spells (d : Decoder) (idx : Bytes) : Prop where
  lower : -8 ≤ d.valb
  upper : d.valb < 0
  spells : spelled 8 d.out ++ BitList.bits (d.valb + 8).toNat d.val.toNat = spelled 6 idx

theorem decoder_start : (⟨0, -8, []⟩ : Decoder).Spells [] := ⟨by decide, by decide, rfl⟩

theorem Decoder.push_spells {d : Decoder} {idx : Bytes} (hd : d.Spells idx) {i : UInt8}
    (hi : i.toNat < 2 ^ 6) : (d.push i.toNat).Spells (idx ++ [i]) := by
  obtain ⟨hl, hu, hs⟩ := hd
  have hfeed := bits_val_feed d.val (p := (d.valb + 8).toNat) (by decide) hi (by omega)
  rw [Decoder.push, BitVec.ofInt_natCast]
  split
  · refine ⟨by simp only; omega, by simp only; omega, ?_⟩
    rw [spelled_append, toNat_window (w := 8) _ (by omega) rfl, List.append_assoc,
      ← Nat.and_two_pow_sub_one_eq_mod, ← Nat.one_shiftLeft, emit_spelled (by decide),
      show (d.valb + 6 - 8 + 8).toNat = (d.valb + 6).toNat by omega, ← bits_add,
      show 8 + (d.valb + 6).toNat = (d.valb + 8).toNat + 6 by omega, hfeed,
      ← List.append_assoc, hs, spelled_append, spelled_singleton]
  · refine ⟨by simp only; omega, by simp only; omega, ?_⟩
    rw [show (d.valb + 6 + 8).toNat = (d.valb + 8).toNat + 6 by omega, hfeed,
      ← List.append_assoc, hs, spelled_append, spelled_singleton]

/-- Up to the first byte outside the alphabet, `decode` drops less than one byte
of bits and reads the rest. -/
theorem decodeLoop_spec {d : Decoder} {done idx rest : Bytes} (hd : d.Spells done)
    (hw : Words 6 idx) (hrest : ∀ c ∈ rest.head?, table.getD c.toNat (-1) = -1) :
    ∃ r : List Bool, r.length < 8 ∧
      spelled 8 (decodeLoop d (idx.map letter ++ rest)) ++ r = spelled 6 (done ++ idx) := by
  induction idx generalizing d done with
  | nil =>
    have hstop : decodeLoop d rest = d.out := by
      cases rest with
      | nil => rfl
      | cons c rest => rw [decodeLoop, if_pos (hrest c (by simp))]
    have hl := hd.lower
    have hu := hd.upper
    exact ⟨BitList.bits (d.valb + 8).toNat d.val.toNat, by rw [length_bits]; omega,
      by simpa [hstop] using hd.spells⟩
  | cons i idx ih =>
    have hi := hw i (by simp)
    have hne : ¬ table.getD (letter i).toNat (-1) = -1 := by
      rw [table_letter hi]
      omega
    rw [List.map_cons, List.cons_append, decodeLoop, if_neg hne, table_letter hi]
    simpa using ih (Decoder.push_spells hd hi) fun b hb => hw b (by simp [hb])

theorem decode_spec {idx rest : Bytes} (hw : Words 6 idx)
    (hrest : ∀ c ∈ rest.head?, table.getD c.toNat (-1) = -1) :
    ∃ r : List Bool, r.length < 8 ∧
      spelled 8 (decode (idx.map letter ++ rest)) ++ r = spelled 6 idx := by
  simpa [decode] using decodeLoop_spec decoder_start hw hrest

theorem decode_encode (s : Bytes) : decode (encode s) = s := by
  obtain ⟨idx, k, hw, hk, hs, he⟩ := encode_spec s
  have hpad : ∀ c ∈ (List.replicate ((4 - idx.length % 4) % 4) pad).head?,
      table.getD c.toNat (-1) = -1 := by
    intro c hc
    rw [List.head?_replicate] at hc
    split at hc
    · simp at hc
    · rw [← Option.some.inj hc, table_pad]
  obtain ⟨r, hr, hd⟩ := decode_spec hw hpad
  rw [he]
  exact (spelled_append_inj hr (by simp; omega) (words_byte _) (words_byte _) (hd.trans hs)).1

theorem encode_inj {s t : Bytes} (h : encode s = encode t) : s = t := by
  rw [← decode_encode s, h, decode_encode]

theorem letter_rfc {n : Nat} (h : n < 2 ^ 6) : letter (UInt8.ofNat n) = Rfc4648.letter n := by
  have all : ∀ n < 64, letter (UInt8.ofNat n) = Rfc4648.letter n := by decide +kernel
  exact all n h

theorem encode_eq_rfc (s : Bytes) : encode s = Rfc4648.encode s := by
  obtain ⟨idx, k, hw, hk, hs, he⟩ := encode_spec s
  obtain ⟨ws, l, hlt, hl, hflat, htext⟩ := Rfc4648.encode_spec s
  have hwords : idx.map UInt8.toNat = ws :=
    flat_padded_inj hk hl (by simpa [Words] using hw) hlt hs hflat
  have hletters : idx.map letter = ws.map Rfc4648.letter := by
    rw [← hwords, List.map_map]
    refine List.map_congr_left fun i hi => ?_
    rw [Function.comp_apply, ← letter_rfc (hw i hi), UInt8.ofNat_toNat]
  rw [he, htext, hletters, ← hwords, List.length_map]
  rfl

theorem encode_standard :
    (∀ s, encode s = Rfc4648.encode s) ∧ ∀ s, decode (encode s) = s :=
  ⟨encode_eq_rfc, decode_encode⟩

theorem letter_ascii {i : UInt8} (hi : i.toNat < 2 ^ 6) : letter i ≤ 0x7f := by
  have h : ∀ n < 64, alphabet.getD n 0 ≤ 0x7f := by decide +kernel
  exact h i.toNat hi

theorem encode_ascii {s : Bytes} {b : UInt8} (h : b ∈ encode s) : b ≤ 0x7f := by
  obtain ⟨idx, k, hw, -, -, he⟩ := encode_spec s
  rw [he, List.mem_append, List.mem_map, List.mem_replicate] at h
  rcases h with ⟨i, hi, rfl⟩ | ⟨-, rfl⟩
  · exact letter_ascii (hw i hi)
  · decide

example : encode (ascii "test") = ascii "dGVzdA==" := by decide +kernel

end MxSdk.Base64
