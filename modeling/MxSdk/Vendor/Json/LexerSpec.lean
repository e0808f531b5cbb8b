import MxSdk.Vendor.Json.Lexer

/-! What the lexer reads back of what the serializer writes, and what it can read
at all: a string token is always well-formed UTF-8. -/

namespace MxSdk.Json
open Utf8 Decimal

theorem nextByteInRange_append {rs : List Range} {ps : Bytes} (h : List.Forall₂ Range.Holds rs ps)
    (rest : Bytes) : nextByteInRange rs (ps ++ rest) = some (ps, rest) := by
  induction h with
  | nil => rfl
  | cons hb _ ih =>
    rw [List.cons_append, nextByteInRange, if_pos hb, ih]
    rfl

theorem nextByteInRange_spec {rs : List Range} {input s rest : Bytes}
    (h : nextByteInRange rs input = some (s, rest)) : List.Forall₂ Range.Holds rs s := by
  induction rs generalizing input s rest with
  | nil =>
    cases h
    exact .nil
  | cons r rs ih =>
    cases input with
    | nil => cases h
    | cons c input =>
      rw [nextByteInRange] at h
      split at h
      · rename_i hc
        simp only [bind, Option.bind_eq_some_iff] at h
        obtain ⟨⟨s', rest'⟩, hnext, h⟩ := h
        obtain ⟨rfl, -⟩ := Prod.mk.inj (Option.some.inj h)
        exact .cons hc (ih hnext)
      · cases h

/-- Outside the control characters, the ranges checked are those of UTF-8. -/
theorem stringRanges_eq {c : UInt8} (h : ¬ c ≤ 0x1f) : stringRanges c = followers c := by
  have all : ∀ c : UInt8, ¬ c ≤ 0x1f → stringRanges c = followers c :=
    forall_byte (by decide +kernel)
  exact all c h

theorem scanString_of_character {c : UInt8} (hc : c ≠ quote) {input s rest : Bytes}
    (h : scanCharacter c input = some (s, rest)) :
    scanString (c :: input) = (scanString rest).map fun (t, rest) => (s ++ t, rest) := by
  rw [scanString, if_neg hc]
  split
  · rename_i h'
    rw [h] at h'
    cases h'
  · rename_i s' rest' h'
    rw [h] at h'
    obtain ⟨rfl, rfl⟩ := Prod.mk.inj (Option.some.inj h')
    cases scanString rest with
    | none => rfl
    | some p => rfl

theorem hexDigitValue_hexDigit {d : Nat} (h : d < 16) :
    hexDigitValue (hexDigit false d) = some d := by
  have all : ∀ d < 16, hexDigitValue (hexDigit false d) = some d := by decide +kernel
  exact all d h

theorem getCodepoint_hex4 {n : Nat} (h : n < 65536) (rest : Bytes) :
    getCodepoint (hex4 n ++ rest) = some (n, rest) := by
  have hd (k : Nat) : hexDigitValue (hexDigit false (k % 16)) = some (k % 16) :=
    hexDigitValue_hexDigit (Nat.mod_lt k (by decide))
  simp only [hex4, List.cons_append, List.nil_append, getCodepoint, hd, bind, Option.bind_some,
    Option.some.injEq, Prod.mk.injEq, and_true]
  omega

theorem scanUnicode_control {n : Nat} (h : n ≤ 0x1f) (rest : Bytes) :
    scanUnicode (hex4 n ++ rest) = some ([UInt8.ofNat n], rest) := by
  rw [scanUnicode, getCodepoint_hex4 (by omega)]
  simp only [bind, Option.bind_some]
  rw [if_neg (by omega), if_neg (by omega), encodeCodepoint, if_pos (by omega)]

theorem scanCharacter_escapeByte {b : UInt8} (h : b ≤ 0x7f) (rest : Bytes) :
    ∃ c input, escapeByte b ++ rest = c :: input ∧ c ≠ quote ∧
      scanCharacter c input = some ([b], rest) := by
  have hb : b.toNat ≤ 0x7f := UInt8.le_iff_toNat_le.mp h
  have hesc {e : Bytes} (he : scanEscape (e ++ rest) = some ([b], rest)) :
      ∃ c input, backslash :: e ++ rest = c :: input ∧ c ≠ quote ∧
        scanCharacter c input = some ([b], rest) :=
    ⟨backslash, e ++ rest, rfl, by decide, by rw [scanCharacter, if_pos rfl, he]⟩
  have hshort {n : Nat} {l : UInt8} (hn : b.toNat = n)
      (hl : scanEscape (l :: rest) = some ([UInt8.ofNat n], rest)) :
      ∃ c input, [backslash, l] ++ rest = c :: input ∧ c ≠ quote ∧
        scanCharacter c input = some ([b], rest) := by
    rw [← hn, UInt8.ofNat_toNat] at hl
    exact hesc hl
  unfold escapeByte escape
  split
  · exact hshort ‹_› rfl
  split
  · exact hshort ‹_› rfl
  split
  · exact hshort ‹_› rfl
  split
  · exact hshort ‹_› rfl
  split
  · exact hshort ‹_› rfl
  split
  · exact hshort ‹_› rfl
  split
  · exact hshort ‹_› rfl
  split
  · rename_i hctl
    refine hesc (e := chr 'u' :: hex4 b.toNat) ?_
    have hu := scanUnicode_control hctl rest
    rw [UInt8.ofNat_toNat] at hu
    exact hu
  · rename_i hquote hback hctl
    have hq : b ≠ quote := fun hq => hquote (by rw [hq]; rfl)
    have hs : b ≠ backslash := fun hs => hback (by rw [hs]; rfl)
    have hprint : ¬ b ≤ 0x1f := fun hle => hctl (UInt8.le_iff_toNat_le.mp hle)
    refine ⟨b, rest, rfl, hq, ?_⟩
    rw [scanCharacter, if_neg hs, stringRanges_eq hprint, followers_ascii h]
    rfl

theorem scanCharacter_long {lead : UInt8} {rs : List Range} {ps : Bytes} (hne : ¬ lead ≤ 0x7f)
    (hf : followers lead = some rs) (hps : List.Forall₂ Range.Holds rs ps) (rest : Bytes) :
    scanCharacter lead (ps ++ rest) = some (lead :: ps, rest) := by
  have hback : lead ≠ backslash := by
    rintro rfl
    exact hne (by decide)
  have hctl : ¬ lead ≤ 0x1f := fun h => hne (UInt8.le_trans h (by decide))
  rw [scanCharacter, if_neg hback, stringRanges_eq hctl, hf]
  simp only [bind, Option.bind_some, nextByteInRange_append hps]

theorem escape_followers {rs : List Range} {ps : Bytes} (hr : ∀ r ∈ rs, 0x80 ≤ r.1)
    (h : List.Forall₂ Range.Holds rs ps) : ps.flatMap escapeByte = ps := by
  induction h with
  | nil => rfl
  | @cons r b rs ps hb _ ih =>
    have hlow : 0x80 ≤ b := UInt8.le_trans (hr r (by simp)) hb.1
    rw [List.flatMap_cons, escapeByte_of_large hlow, ih fun r' hr' => hr r' (by simp [hr'])]
    rfl

/-- The lexer undoes the escaping. -/
theorem scanString_escaped {s : Bytes} (h : WellFormed s) (rest : Bytes) :
    scanString (s.flatMap escapeByte ++ quote :: rest) = some (s, rest) := by
  refine h.induction (P := fun s => scanString (s.flatMap escapeByte ++ quote :: rest) =
    some (s, rest)) ?_ fun lead rs ps t hlead hps _ ih => ?_
  · rw [List.flatMap_nil, List.nil_append, scanString, if_pos rfl]
  · obtain ⟨hascii, hrange⟩ := followers_range hlead
    rw [List.flatMap_cons, List.flatMap_append, escape_followers hrange hps, List.append_assoc,
      List.append_assoc]
    by_cases hl : lead ≤ 0x7f
    · obtain rfl := hascii hl
      cases hps
      obtain ⟨c, input, heq, hc, hscan⟩ :=
        scanCharacter_escapeByte hl (t.flatMap escapeByte ++ quote :: rest)
      rw [List.nil_append, heq, scanString_of_character hc hscan, ih]
      rfl
    · have hlow : 0x80 ≤ lead := by
        rw [UInt8.le_iff_toNat_le] at hl ⊢
        simp at hl ⊢
        omega
      have hq : lead ≠ quote := by
        rintro rfl
        exact hl (by decide)
      rw [escapeByte_of_large hlow, List.singleton_append,
        scanString_of_character hq (scanCharacter_long hl hlead hps _), ih]
      rfl

theorem hexDigitValue_lt {c : UInt8} {d : Nat} (h : hexDigitValue c = some d) : d < 16 := by
  have all : ∀ c, (hexDigitValue c).all (fun d => d < 16) = true := forall_byte (by decide +kernel)
  have hc := all c
  rw [h] at hc
  exact of_decide_eq_true hc

theorem getCodepoint_lt {input rest : Bytes} {n : Nat} (h : getCodepoint input = some (n, rest)) :
    n < 65536 := by
  unfold getCodepoint at h
  split at h
  · simp only [bind, Option.bind_eq_some_iff, Option.some.injEq, Prod.mk.injEq] at h
    obtain ⟨d₃, h₃, d₂, h₂, d₁, h₁, d₀, h₀, rfl, -⟩ := h
    have := hexDigitValue_lt h₃
    have := hexDigitValue_lt h₂
    have := hexDigitValue_lt h₁
    have := hexDigitValue_lt h₀
    omega
  · cases h

theorem or_eq_add {a b k : Nat} (hb : b < 2 ^ k) : a <<< k ||| b = a * 2 ^ k + b := by
  rw [← Nat.shiftLeft_add_eq_or_of_lt hb, Nat.shiftLeft_eq]

theorem toNat_continuation (n : Nat) :
    (UInt8.ofNat (0x80 ||| n &&& 0x3f)).toNat = 0x80 + n % 64 := by
  have hlt := Nat.mod_lt n (show 0 < 64 by decide)
  rw [and_lowSix, show (0x80 : Nat) = 2 <<< 6 from rfl, or_eq_add (Nat.mod_lt _ (by decide)),
    UInt8.toNat_ofNat']
  omega

theorem holds_continuation {lo hi : UInt8} {n : Nat} (hlo : lo.toNat ≤ 0x80 + n % 64)
    (hhi : 0x80 + n % 64 ≤ hi.toNat) :
    Range.Holds (lo, hi) (UInt8.ofNat (0x80 ||| n &&& 0x3f)) := by
  constructor
  · rw [UInt8.le_iff_toNat_le, toNat_continuation]
    exact hlo
  · rw [UInt8.le_iff_toNat_le, toNat_continuation]
    exact hhi

theorem holds_tail (n : Nat) : tail.Holds (UInt8.ofNat (0x80 ||| n &&& 0x3f)) := by
  have hlt := Nat.mod_lt n (show 0 < 64 by decide)
  exact holds_continuation (Nat.le_add_right _ _) (show 0x80 + n % 64 ≤ 0xbf by omega)

theorem wellFormed_character {lead : UInt8} {rs : List Range} {ps : Bytes}
    (hf : followers lead = some rs) (hps : List.Forall₂ Range.Holds rs ps) :
    WellFormed (lead :: ps) := by
  have h := owing_append hps .done
  rw [List.append_nil] at h
  exact .lead hf h

theorem encodeCodepoint_wellFormed {n : Nat} (hmax : n ≤ 0x10ffff)
    (hsurrogate : ¬ (0xd800 ≤ n ∧ n ≤ 0xdfff)) : WellFormed (encodeCodepoint n) := by
  unfold encodeCodepoint
  split
  · refine wellFormed_ascii fun b hb => ?_
    rw [List.mem_singleton.mp hb, UInt8.le_iff_toNat_le, UInt8.toNat_ofNat']
    show n % 256 ≤ 0x7f
    omega
  split
  · have hlead : ∀ x < 32, 2 ≤ x → followers (UInt8.ofNat (0xc0 ||| x)) = some [tail] := by
      decide +kernel
    rw [Nat.shiftRight_eq_div_pow]
    exact wellFormed_character (hlead (n / 2 ^ 6) (by omega) (by omega)) (.cons (holds_tail n) .nil)
  split
  · have hlead : ∀ x < 16, followers (UInt8.ofNat (0xe0 ||| x)) =
        some [if x = 0 then (0xa0, 0xbf) else if x = 13 then (0x80, 0x9f) else tail, tail] := by
      decide +kernel
    rw [Nat.shiftRight_eq_div_pow, Nat.shiftRight_eq_div_pow]
    refine wellFormed_character (hlead (n / 2 ^ 12) (by omega))
      (.cons ?_ (.cons (holds_tail n) .nil))
    split
    · exact holds_continuation (show 0xa0 ≤ 0x80 + n / 2 ^ 6 % 64 by omega)
        (show 0x80 + n / 2 ^ 6 % 64 ≤ 0xbf by omega)
    split
    · exact holds_continuation (show 0x80 ≤ 0x80 + n / 2 ^ 6 % 64 by omega)
        (show 0x80 + n / 2 ^ 6 % 64 ≤ 0x9f by omega)
    · exact holds_tail _
  · have hlead : ∀ x < 5, followers (UInt8.ofNat (0xf0 ||| x)) =
        some [if x = 0 then (0x90, 0xbf) else if x = 4 then (0x80, 0x8f) else tail, tail, tail] := by
      decide +kernel
    rw [Nat.shiftRight_eq_div_pow, Nat.shiftRight_eq_div_pow, Nat.shiftRight_eq_div_pow]
    refine wellFormed_character (hlead (n / 2 ^ 18) (by omega))
      (.cons ?_ (.cons (holds_tail _) (.cons (holds_tail n) .nil)))
    split
    · exact holds_continuation (show 0x90 ≤ 0x80 + n / 2 ^ 12 % 64 by omega)
        (show 0x80 + n / 2 ^ 12 % 64 ≤ 0xbf by omega)
    split
    · exact holds_continuation (show 0x80 ≤ 0x80 + n / 2 ^ 12 % 64 by omega)
        (show 0x80 + n / 2 ^ 12 % 64 ≤ 0x8f by omega)
    · exact holds_tail _

theorem scanUnicode_wellFormed {input s rest : Bytes} (h : scanUnicode input = some (s, rest)) :
    WellFormed s := by
  simp only [scanUnicode, bind, Option.bind_eq_some_iff] at h
  obtain ⟨⟨n, mid⟩, hmid, h⟩ := h
  have hn := getCodepoint_lt hmid
  dsimp only at h
  split at h
  · rename_i hhigh
    split at h
    · split at h
      · simp only [Option.bind_eq_some_iff] at h
        obtain ⟨⟨n', low⟩, -, h⟩ := h
        dsimp only at h
        split at h
        · rename_i hlow
          obtain ⟨rfl, -⟩ := Prod.mk.inj (Option.some.inj h)
          exact encodeCodepoint_wellFormed (by omega) (by omega)
        · cases h
      · cases h
    · cases h
  · split at h
    · cases h
    · obtain ⟨rfl, -⟩ := Prod.mk.inj (Option.some.inj h)
      exact encodeCodepoint_wellFormed (by omega) (by omega)

theorem wellFormed_singleton {b : UInt8} (h : b ≤ 0x7f) : WellFormed [b] :=
  wellFormed_ascii fun c hc => by rwa [List.mem_singleton.mp hc]

theorem scanEscape_wellFormed {input s rest : Bytes} (h : scanEscape input = some (s, rest)) :
    WellFormed s := by
  cases input with
  | nil => cases h
  | cons c input =>
    rw [scanEscape] at h
    iterate 8
      split at h
      · cases h
        exact wellFormed_singleton (by decide)
    split at h
    · exact scanUnicode_wellFormed h
    · cases h

theorem scanCharacter_wellFormed {c : UInt8} {input s rest : Bytes}
    (h : scanCharacter c input = some (s, rest)) : WellFormed s := by
  unfold scanCharacter at h
  split at h
  · exact scanEscape_wellFormed h
  · simp only [bind, Option.bind_eq_some_iff] at h
    obtain ⟨ranges, hranges, ⟨s', rest'⟩, hnext, h⟩ := h
    obtain ⟨rfl, -⟩ := Prod.mk.inj (Option.some.inj h)
    have hctl : ¬ c ≤ 0x1f := by
      intro hle
      rw [stringRanges, if_pos hle] at hranges
      cases hranges
    rw [stringRanges_eq hctl] at hranges
    exact wellFormed_character hranges (nextByteInRange_spec hnext)

theorem scanString_wellFormed {input s rest : Bytes} (h : scanString input = some (s, rest)) :
    WellFormed s :=
  scanString_induction (motive := fun _ s _ => WellFormed s) (fun _ => .done)
    (fun hscan ih => (scanCharacter_wellFormed hscan).append ih) h

theorem scan_wellFormed {input s rest : Bytes} (h : scan input = (.valueString s, rest)) :
    WellFormed s := by
  unfold scan at h
  split at h
  · cases h
  · rename_i c mid hmid
    obtain ⟨r, hr⟩ := (scanToken_scan c mid).string s (by rw [h])
    exact scanString_wellFormed hr

theorem tokens_wellFormed {input s : Bytes} (h : .valueString s ∈ tokens input) :
    WellFormed s := by
  induction hn : input.length using Nat.strongRecOn generalizing input with
  | _ n ih =>
    rw [tokens] at h
    split at h
    rename_i token rest hscan
    split at h
    · rename_i hlast
      rw [← List.mem_singleton.mp h] at hlast
      rcases hlast with hlast | hlast <;> cases hlast
    · rename_i hlast
      have hlen := scan_length hscan fun hend => hlast (.inl hend)
      rcases List.mem_cons.mp h with rfl | h
      · exact scan_wellFormed hscan
      · exact ih rest.length (by omega) h rfl

theorem tokenStream_wellFormed {input s : Bytes} (h : .valueString s ∈ tokenStream input) :
    WellFormed s := by
  unfold tokenStream at h
  split at h
  · split at h
    · exact tokens_wellFormed h
    · simp at h
  · exact tokens_wellFormed h

end MxSdk.Json
