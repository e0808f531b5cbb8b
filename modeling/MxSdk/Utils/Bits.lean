import MxSdk.Basic
import MxSdk.Lib.BitList

/-! `util::convertBits`: regroups words of `fromBits` bits into words of `toBits`
bits. Both accumulators are `unsigned int`. Every shifted value is masked below
2^32 in the same expression, so their wrap-around is never observed and they are
natural numbers here. -/

namespace MxSdk.Bits
open BitList

structure Converter where
  acc : Nat
  bits : Nat
  ret : Bytes

/-- The inner loop `while (bits >= toBits)`. A width of zero would never leave it. -/
def drain (toBits acc bits : Nat) (ret : Bytes) : Nat × Bytes :=
  if 0 < toBits ∧ toBits ≤ bits then
    let bits' := bits - toBits
    drain toBits acc bits' (ret ++ [UInt8.ofNat ((acc >>> bits') &&& (1 <<< toBits - 1))])
  else (bits, ret)
termination_by bits

def Converter.read (fromBits toBits : Nat) (c : Converter) (value : UInt8) :
    Except Exception Converter :=
  let valueAsInt := value.toNat &&& 0xff
  if valueAsInt >>> fromBits ≠ 0 then throw (.invalidArgument errorMsgConvertBits)
  else
    let acc := (c.acc <<< fromBits ||| valueAsInt) &&& (1 <<< (fromBits + toBits - 1) - 1)
    let (bits, ret) := drain toBits acc (c.bits + fromBits) c.ret
    .ok ⟨acc, bits, ret⟩

def Converter.finish (fromBits toBits : Nat) (pad : Bool) (c : Converter) :
    Except Exception Bytes :=
  let rest := (c.acc <<< (toBits - c.bits)) &&& (1 <<< toBits - 1)
  if pad then
    .ok (if 0 < c.bits then c.ret ++ [UInt8.ofNat rest] else c.ret)
  else if fromBits ≤ c.bits ∨ rest ≠ 0 then throw (.invalidArgument errorMsgConvertBits)
  else .ok c.ret

def convertBits (data : Bytes) (fromBits toBits : Nat) (pad : Bool) : Except Exception Bytes := do
  let c ← data.foldlM (Converter.read fromBits toBits) ⟨0, 0, []⟩
  c.finish fromBits toBits pad

theorem readAll_error {f t : Nat} {data : Bytes} {c : Converter} {e : Exception}
    (h : data.foldlM (Converter.read f t) c = .error e) :
    e = .invalidArgument errorMsgConvertBits := by
  induction data generalizing c with
  | nil => cases h
  | cons v data ih =>
    rw [List.foldlM_cons] at h
    rcases bind_eq_error h with hread | ⟨c', -, hrest⟩
    · unfold Converter.read at hread
      dsimp only at hread
      split at hread
      · exact (Except.error.inj hread).symm
      · cases hread
    · exact ih hrest

theorem convertBits_error {f t : Nat} {pad : Bool} {data : Bytes} {e : Exception}
    (h : convertBits data f t pad = .error e) : e = .invalidArgument errorMsgConvertBits := by
  rcases bind_eq_error h with hrun | ⟨c, -, hfinish⟩
  · exact readAll_error hrun
  · unfold Converter.finish at hfinish
    dsimp only at hfinish
    split at hfinish
    · cases hfinish
    · split at hfinish
      · exact (Except.error.inj hfinish).symm
      · cases hfinish

def spelled (w : Nat) (s : Bytes) : List Bool := flat w (s.map UInt8.toNat)

def Words (w : Nat) (s : Bytes) : Prop := ∀ b ∈ s, b.toNat < 2 ^ w

theorem words_byte (s : Bytes) : Words 8 s := fun b _ => b.toNat_lt

@[simp] theorem length_spelled (w : Nat) (s : Bytes) : (spelled w s).length = w * s.length := by
  simp [spelled]

@[simp] theorem spelled_nil (w : Nat) : spelled w [] = [] := rfl

@[simp] theorem spelled_append (w : Nat) (s t : Bytes) :
    spelled w (s ++ t) = spelled w s ++ spelled w t := by simp [spelled]

theorem spelled_singleton (w : Nat) (b : UInt8) : spelled w [b] = BitList.bits w b.toNat := by
  simp [spelled]

theorem words_append {w : Nat} {s t : Bytes} : Words w (s ++ t) ↔ Words w s ∧ Words w t := by
  simp only [Words, List.mem_append]
  exact ⟨fun h => ⟨fun b hb => h b (.inl hb), fun b hb => h b (.inr hb)⟩,
    fun h b hb => hb.elim (h.1 b) (h.2 b)⟩

theorem spelled_append_inj {w : Nat} {p q : List Bool} (hp : p.length < w) (hq : q.length < w)
    {s t : Bytes} (hs : Words w s) (ht : Words w t)
    (h : spelled w s ++ p = spelled w t ++ q) : s = t ∧ p = q := by
  obtain ⟨hmap, hrest⟩ := flat_append_inj hp hq (by simpa [Words] using hs)
    (by simpa [Words] using ht) h
  exact ⟨(List.map_inj_right fun a b => UInt8.toNat_inj.mp).mp hmap, hrest⟩

/-- The loop invariant: what was written and the pending low bits of the
accumulator spell what was read. -/
structure Converter.Spells (fromBits toBits : Nat) (c : Converter) (data : Bytes) : Prop where
  pending : c.bits < toBits
  written : Words toBits c.ret
  spells : spelled toBits c.ret ++ BitList.bits c.bits c.acc = spelled fromBits data

section Width
variable {t : Nat} (ht : 0 < t) (ht8 : t ≤ 8)
include ht8

theorem toNat_emit (n : Nat) : (UInt8.ofNat (n &&& (1 <<< t - 1))).toNat = n % 2 ^ t := by
  rw [Nat.one_shiftLeft, Nat.and_two_pow_sub_one_eq_mod, UInt8.toNat_ofNat']
  have hlt := Nat.mod_lt n (Nat.two_pow_pos t)
  have h8 : (2 : Nat) ^ t ≤ 2 ^ 8 := Nat.pow_le_pow_right (by decide) ht8
  exact Nat.mod_eq_of_lt (by omega)

theorem emit_spelled (n : Nat) :
    spelled t [UInt8.ofNat (n &&& (1 <<< t - 1))] = BitList.bits t n := by
  rw [spelled_singleton, toNat_emit ht8, bits_mod le_rfl]

theorem emit_words (n : Nat) : Words t [UInt8.ofNat (n &&& (1 <<< t - 1))] := by
  intro b hb
  rw [List.mem_singleton.mp hb, toNat_emit ht8]
  exact Nat.mod_lt _ (Nat.two_pow_pos t)

include ht

theorem drain_spec (acc bits : Nat) (ret : Bytes) (hret : Words t ret) :
    (drain t acc bits ret).1 < t ∧ Words t (drain t acc bits ret).2 ∧
      spelled t (drain t acc bits ret).2 ++ BitList.bits (drain t acc bits ret).1 acc =
        spelled t ret ++ BitList.bits bits acc := by
  induction bits using Nat.strong_induction_on generalizing ret with
  | _ bits ih =>
    unfold drain
    split
    · rename_i h
      obtain ⟨hlt, hw, hs⟩ := ih (bits - t) (by omega) _
        (words_append.mpr ⟨hret, emit_words ht8 (acc >>> (bits - t))⟩)
      refine ⟨hlt, hw, hs.trans ?_⟩
      rw [spelled_append, emit_spelled ht8, List.append_assoc, ← bits_add]
      congr 2
      omega
    · exact ⟨by omega, hret, rfl⟩

end Width

theorem value_and_ff (v : UInt8) : v.toNat &&& 0xff = v.toNat := by
  rw [show (0xff : Nat) = 2 ^ 8 - 1 from rfl, Nat.and_two_pow_sub_one_eq_mod]
  exact Nat.mod_eq_of_lt v.toNat_lt

theorem shiftRight_eq_zero_iff {v f : Nat} : v >>> f = 0 ↔ v < 2 ^ f := by
  rw [Nat.shiftRight_eq_div_pow, Nat.div_eq_zero_iff]
  have := Nat.two_pow_pos f
  omega

section Loop
variable {f t : Nat} (ht : 0 < t) (ht8 : t ≤ 8)
include ht ht8

theorem read_spells {c : Converter} {data : Bytes} (hc : c.Spells f t data) {v : UInt8}
    (hv : v.toNat < 2 ^ f) :
    ∃ c', c.read f t v = .ok c' ∧ c'.Spells f t (data ++ [v]) := by
  have hfit : ¬ v.toNat >>> f ≠ 0 := by simp [shiftRight_eq_zero_iff, hv]
  refine ⟨_, by rw [Converter.read, value_and_ff, if_neg hfit], ?_⟩
  obtain ⟨hlt, hw, hs⟩ := drain_spec ht ht8
    ((c.acc <<< f ||| v.toNat) &&& (1 <<< (f + t - 1) - 1)) (c.bits + f) c.ret hc.written
  refine ⟨hlt, hw, hs.trans ?_⟩
  -- at most `t - 1` bits were pending, so the mask keeps all that count
  rw [Nat.one_shiftLeft, bits_and (by have := hc.pending; omega), bits_feed hv,
    ← List.append_assoc, hc.spells, spelled_append, spelled_singleton]

theorem readAll_spells {c : Converter} {done : Bytes} (hc : c.Spells f t done) {data : Bytes}
    (hd : Words f data) :
    ∃ c', data.foldlM (Converter.read f t) c = .ok c' ∧ c'.Spells f t (done ++ data) := by
  induction data generalizing c done with
  | nil => exact ⟨c, rfl, by simpa using hc⟩
  | cons v data ih =>
    obtain ⟨c₁, hread, hc₁⟩ := read_spells ht ht8 hc (hd v (by simp))
    obtain ⟨c', hrun, hc'⟩ := ih hc₁ fun b hb => hd b (by simp [hb])
    refine ⟨c', ?_, by simpa using hc'⟩
    rw [List.foldlM_cons, hread]
    exact hrun

omit ht ht8 in
theorem readAll_rejects {data : Bytes} (hd : ¬ Words f data) (c : Converter) :
    data.foldlM (Converter.read f t) c = .error (.invalidArgument errorMsgConvertBits) := by
  induction data generalizing c with
  | nil => exact absurd (by simp [Words]) hd
  | cons v data ih =>
    rw [List.foldlM_cons, Converter.read, value_and_ff]
    by_cases hv : v.toNat < 2 ^ f
    · rw [if_neg (by simp [shiftRight_eq_zero_iff, hv])]
      refine ih (fun h => hd ?_) _
      simpa [Words, hv] using h
    · rw [if_pos (by simpa [shiftRight_eq_zero_iff] using hv)]
      rfl

omit ht ht8 in
theorem start_spells (ht : 0 < t) : (⟨0, 0, []⟩ : Converter).Spells f t [] :=
  ⟨ht, by simp [Words], rfl⟩

omit ht ht8 in
theorem rest_bits {c : Converter} {data : Bytes} (hc : c.Spells f t data) :
    BitList.bits t (c.acc <<< (t - c.bits)) =
      BitList.bits c.bits c.acc ++ List.replicate (t - c.bits) false := by
  have hfeed := bits_feed (Nat.two_pow_pos (t - c.bits)) c.bits c.acc
  have hp := hc.pending
  rw [Nat.or_zero, bits_zero] at hfeed
  rw [← hfeed]
  congr 1
  omega

theorem convertBits_pad {data : Bytes} (hd : Words f data) :
    ∃ ret k, convertBits data f t true = .ok ret ∧ Words t ret ∧ k < t ∧
      spelled t ret = spelled f data ++ List.replicate k false := by
  obtain ⟨c, hrun, hc⟩ := readAll_spells ht ht8 (start_spells ht) hd
  rw [List.nil_append] at hc
  by_cases hb : 0 < c.bits
  · refine ⟨_, t - c.bits, by simp only [convertBits, hrun]; rfl, ?_⟩
    rw [if_pos hb, words_append, spelled_append, emit_spelled ht8, rest_bits hc,
      ← List.append_assoc, hc.spells]
    exact ⟨⟨hc.written, emit_words ht8 _⟩, by have := hc.pending; omega, rfl⟩
  · refine ⟨c.ret, 0, by simp only [convertBits, hrun]; simp [bind, Except.bind,
      Converter.finish, hb], hc.written, ht, ?_⟩
    have hs := hc.spells
    rw [Nat.eq_zero_of_not_pos hb] at hs
    simpa [BitList.bits] using hs

/-- Without padding the bits that are left over must be fewer than a word, and zero. -/
theorem convertBits_eq {data : Bytes} (hd : Words f data) :
    ∃ ret rest, Words t ret ∧ rest.length < t ∧ spelled t ret ++ rest = spelled f data ∧
      convertBits data f t false = if f ≤ rest.length ∨ true ∈ rest then
        .error (.invalidArgument errorMsgConvertBits) else .ok ret := by
  obtain ⟨c, hrun, hc⟩ := readAll_spells ht ht8 (start_spells ht) hd
  rw [List.nil_append] at hc
  have hp := hc.pending
  have hrest : (c.acc <<< (t - c.bits)) &&& (1 <<< t - 1) ≠ 0 ↔
      true ∈ BitList.bits c.bits c.acc := by
    have hzeros : List.replicate t false =
        List.replicate c.bits false ++ List.replicate (t - c.bits) false := by
      rw [List.replicate_append_replicate]
      congr 1
      omega
    rw [Nat.one_shiftLeft, Nat.and_two_pow_sub_one_eq_mod, ne_eq, ← bits_eq_replicate_iff,
      rest_bits hc, hzeros, List.append_left_inj, bits_zeros_iff, not_not]
  refine ⟨c.ret, BitList.bits c.bits c.acc, hc.written, by rwa [length_bits], hc.spells, ?_⟩
  rw [convertBits, hrun, length_bits]
  simp only [bind, Except.bind, Converter.finish, Bool.false_eq_true, if_false, hrest]
  rfl

/-- Without padding, `convertBits` succeeds exactly on the words that some output
spells, up to fewer than `fromBits` zero bits, and that output is its result. -/
theorem convertBits_noPad {data ret : Bytes} :
    convertBits data f t false = .ok ret ↔
      Words f data ∧ Words t ret ∧ ∃ k, k < f ∧ k < t ∧
        spelled f data = spelled t ret ++ List.replicate k false := by
  by_cases hd : Words f data
  swap
  · simp [convertBits, readAll_rejects hd, hd, bind, Except.bind]
  obtain ⟨ret', rest, hwritten, hpending, hspells, heq⟩ := convertBits_eq ht ht8 hd
  rw [heq]
  constructor
  · intro h
    split at h
    · cases h
    · rename_i hcond
      obtain ⟨hshort, hzero⟩ := not_or.mp hcond
      rw [← Except.ok.inj h, ← hspells]
      refine ⟨hd, hwritten, rest.length, Nat.lt_of_not_le hshort, hpending, ?_⟩
      rw [← eq_replicate_iff_not_mem.mpr hzero]
  · rintro ⟨-, hret, k, hkf, hkt, hspell⟩
    obtain ⟨rfl, rfl⟩ := spelled_append_inj hpending (by rwa [List.length_replicate])
      hwritten hret (hspells.trans hspell)
    rw [if_neg]
    rw [List.length_replicate]
    rintro (hlong | hone)
    · omega
    · exact Bool.noConfusion (List.eq_of_mem_replicate hone)

end Loop

theorem convertBits_bytes (data : Bytes) :
    ∃ g, convertBits data 8 5 true = .ok g ∧ Words 5 g ∧ convertBits g 5 8 false = .ok data := by
  obtain ⟨g, k, hg, hw, hk, hs⟩ := convertBits_pad (t := 5) (by decide) (by decide)
    (words_byte data)
  exact ⟨g, hg, hw, (convertBits_noPad (by decide) (by decide)).mpr
    ⟨hw, words_byte data, k, hk, by omega, hs⟩⟩

theorem length_of_words {g data : Bytes} (h : convertBits g 5 8 false = .ok data) :
    ∃ k < 5, 5 * g.length = 8 * data.length + k := by
  obtain ⟨-, -, k, hk, -, hs⟩ := (convertBits_noPad (by decide) (by decide)).mp h
  have hlen := congrArg List.length hs
  rw [List.length_append, length_spelled, length_spelled, List.length_replicate] at hlen
  exact ⟨k, hk, hlen⟩

theorem convertBits_words_inj {g g' data : Bytes} (h : convertBits g 5 8 false = .ok data)
    (h' : convertBits g' 5 8 false = .ok data) : g = g' := by
  obtain ⟨hw, -, k, hk, -, hs⟩ := (convertBits_noPad (by decide) (by decide)).mp h
  obtain ⟨hw', -, k', hk', -, hs'⟩ := (convertBits_noPad (by decide) (by decide)).mp h'
  exact (List.map_inj_right fun a b => UInt8.toNat_inj.mp).mp
    (flat_padded_inj hk hk' (by simpa [Words] using hw) (by simpa [Words] using hw') hs hs')

theorem convertBits_inverse {b g : Bytes} :
    convertBits g 5 8 false = .ok b ↔ convertBits b 8 5 true = .ok g := by
  obtain ⟨g', hpad, -, hback⟩ := convertBits_bytes b
  rw [hpad, Except.ok.injEq]
  exact ⟨fun h => convertBits_words_inj hback h, fun h => h ▸ hback⟩

/-- A value of 32 or more, five or more bits left over, or a one among those. -/
def Irregular (g : Bytes) : Prop :=
  (∃ v ∈ g, 32 ≤ v.toNat) ∨ 5 ≤ 5 * g.length % 8 ∨
    true ∈ (spelled 5 g).drop (8 * (5 * g.length / 8))

theorem convertBits_error_iff {g : Bytes} :
    convertBits g 5 8 false = .error (.invalidArgument errorMsgConvertBits) ↔ Irregular g := by
  rw [Irregular]
  by_cases hw : Words 5 g
  · have hwide : ¬ ∃ v ∈ g, 32 ≤ v.toNat := fun ⟨v, hv, hle⟩ => Nat.not_lt.mpr hle (hw v hv)
    obtain ⟨ret, rest, -, hrest, hspells, heq⟩ :=
      convertBits_eq (t := 8) (by decide) (by decide) hw
    have hlen := congrArg List.length hspells
    rw [List.length_append, length_spelled, length_spelled] at hlen
    have hdrop : (spelled 5 g).drop (8 * (5 * g.length / 8)) = rest := by
      rw [← hspells, List.drop_left']
      rw [length_spelled]
      omega
    rw [heq, hdrop, show 5 * g.length % 8 = rest.length by omega]
    simp only [hwide, false_or]
    split
    · rename_i hcond
      exact iff_of_true rfl hcond
    · rename_i hcond
      exact iff_of_false nofun hcond
  · have hwide : ∃ v ∈ g, 32 ≤ v.toNat := by
      by_contra hnone
      exact hw fun v hv => Nat.lt_of_not_le fun hle => hnone ⟨v, hv, hle⟩
    refine iff_of_true ?_ (.inl hwide)
    rw [convertBits, readAll_rejects hw]
    rfl

/-- Regrouping is a bijection from bytes to the five-bit words that are regular. -/
theorem convertBits_bijective :
    (∀ b, ∃ g, convertBits b 8 5 true = .ok g ∧ convertBits g 5 8 false = .ok b) ∧
      (∀ g b, convertBits g 5 8 false = .ok b ↔ convertBits b 8 5 true = .ok g) ∧
      (∀ g, convertBits g 5 8 false = .error (.invalidArgument errorMsgConvertBits) ↔
        Irregular g) ∧
      ∀ g, (¬ ∃ b, convertBits b 8 5 true = .ok g) ↔
        convertBits g 5 8 false = .error (.invalidArgument errorMsgConvertBits) ∧ Irregular g := by
  refine ⟨fun b => ?_, fun g b => convertBits_inverse,
    fun g => convertBits_error_iff, fun g => ?_⟩
  · obtain ⟨g, hpad, -, hback⟩ := convertBits_bytes b
    exact ⟨g, hpad, hback⟩
  · simp only [← convertBits_inverse, ← convertBits_error_iff, and_self]
    cases hg : convertBits g 5 8 false with
    | error e => simp [convertBits_error hg]
    | ok b => simp

end MxSdk.Bits
