import MxSdk.Basic

/-! utils/hex.cpp. The writer uses lower-case digits only, the readers take both cases. -/

namespace MxSdk.Hex

/-- The table `hexValues`; the bytes past its end are -1 too. -/
def hexValues : List Int :=
  List.replicate 48 (-1) ++ [0, 1, 2, 3, 4, 5, 6, 7, 8, 9] ++ List.replicate 7 (-1) ++
    [10, 11, 12, 13, 14, 15] ++ List.replicate 26 (-1) ++ [10, 11, 12, 13, 14, 15]

def hexValue (hexDigit : UInt8) : Except Exception Int :=
  let value := hexValues.getD hexDigit.toNat (-1)
  if value = -1 then throw (.invalidArgument errorMsgHex) else .ok value

def hexDigits : Bytes := ascii "0123456789abcdef"

def stringToHex (input : Bytes) : Bytes :=
  input.flatMap fun (c : UInt8) =>
    [hexDigits.getD (c >>> 4).toNat 0, hexDigits.getD (c &&& 15).toNat 0]

/-- The loop of `hexToString`, once the length is known to be even. -/
def hexPairs : Bytes → Except Exception Bytes
  | hiDigit :: loDigit :: rest => do
    let hi ← hexValue hiDigit
    let lo ← hexValue loDigit
    let output ← hexPairs rest
    .ok (UInt8.ofNat (hi.toNat <<< 4 ||| lo.toNat) :: output)
  | _ => .ok []

def hexToString (input : Bytes) : Except Exception Bytes :=
  if input.length &&& 1 ≠ 0 then throw (.invalidArgument (ascii "odd length"))
  else hexPairs input

def isSpace (c : UInt8) : Bool := c = 0x20 || (0x09 ≤ c && c ≤ 0x0d)

/-- `strtol` in base 16, on a text too short for the prefix `0x` to count. -/
def strtol (text : Bytes) : Int :=
  let text := text.dropWhile isSpace
  let negative := text.head? = some (chr '-')
  let text := if negative || text.head? = some (chr '+') then text.tail else text
  let value := (text.takeWhile fun c => hexValues.getD c.toNat (-1) ≠ -1).foldl
    (fun value c => value * 16 + hexValues.getD c.toNat (-1)) 0
  if negative then -value else value

/-- What the loop of `hexToBytes` returns, where its index gets to the end. -/
def hexToBytes : Bytes → Bytes
  | c :: d :: hex => UInt8.ofInt (strtol [c, d]) :: hexToBytes hex
  | [c] => [UInt8.ofInt (strtol [c])]
  | [] => []

theorem hexValue_digit {n : Nat} (h : n < 16) : hexValue (hexDigits.getD n 0) = .ok n := by
  have all : ∀ n < 16, hexValue (hexDigits.getD n 0) = .ok n := by decide +kernel
  exact all n h

theorem toNat_high (c : UInt8) : (c >>> 4).toNat = c.toNat / 2 ^ 4 := by
  simp [UInt8.toNat_shiftRight, Nat.shiftRight_eq_div_pow]

theorem toNat_low (c : UInt8) : (c &&& 15).toNat = c.toNat % 2 ^ 4 := by
  rw [UInt8.toNat_and, show UInt8.toNat 15 = 2 ^ 4 - 1 from rfl, Nat.and_two_pow_sub_one_eq_mod]

theorem join_nibbles (n : Nat) : (n / 2 ^ 4) <<< 4 ||| n % 2 ^ 4 = n := by
  rw [← Nat.shiftLeft_add_eq_or_of_lt (Nat.mod_lt _ (by decide)), Nat.shiftLeft_eq]
  omega

theorem hexPairs_stringToHex (s : Bytes) : hexPairs (stringToHex s) = .ok s := by
  induction s with
  | nil => rfl
  | cons c s ih =>
    have hc := c.toNat_lt
    rw [stringToHex, List.flatMap_cons, List.cons_append, List.cons_append, List.nil_append,
      hexPairs, hexValue_digit (by rw [toNat_high]; omega),
      hexValue_digit (by rw [toNat_low]; omega)]
    simp only [bind, Except.bind]
    rw [← stringToHex, ih, Int.toNat_natCast, Int.toNat_natCast, toNat_high, toNat_low,
      join_nibbles, UInt8.ofNat_toNat]

theorem length_stringToHex (s : Bytes) : (stringToHex s).length = 2 * s.length := by
  induction s with
  | nil => rfl
  | cons c s ih =>
    rw [stringToHex, List.flatMap_cons, ← stringToHex, List.length_append, ih]
    simp only [List.length_cons, List.length_nil]
    omega

theorem hexToString_stringToHex (s : Bytes) : hexToString (stringToHex s) = .ok s := by
  have heven : (stringToHex s).length &&& 1 = 0 := by
    rw [length_stringToHex, Nat.and_one_is_mod]
    omega
  rw [hexToString, if_neg (by simp [heven]), hexPairs_stringToHex]

theorem hexToBytes_stringToHex (s : Bytes) : hexToBytes (stringToHex s) = s := by
  have all : ∀ c : UInt8, UInt8.ofInt (strtol [hexDigits.getD (c >>> 4).toNat 0,
      hexDigits.getD (c &&& 15).toNat 0]) = c := forall_byte (by decide +kernel)
  induction s with
  | nil => rfl
  | cons c s ih =>
    rw [stringToHex, List.flatMap_cons, List.cons_append, List.cons_append, List.nil_append,
      hexToBytes, all c, ← stringToHex, ih]

def IsHexDigit (c : UInt8) : Prop := ∃ value, hexValue c = .ok value

def IsHexText (s : Bytes) : Prop := s.length % 2 = 0 ∧ ∀ c ∈ s, IsHexDigit c

theorem nil_of_even {s : Bytes} (heven : s.length % 2 = 0)
    (hshort : ∀ a b rest, s = a :: b :: rest → False) : s = [] := by
  cases s with
  | nil => rfl
  | cons a s =>
    cases s with
    | nil => cases heven
    | cons b s => exact absurd rfl (hshort a b s)

/-- What holds pair by pair of a text that is read and of the bytes it is read as. -/
theorem hexPairs_induction {P : Bytes → Bytes → Prop} (nil : P [] [])
    (pair : ∀ {c d : UInt8} {hi lo : Int} {rest output : Bytes}, hexValue c = .ok hi →
      hexValue d = .ok lo → P rest output →
      P (c :: d :: rest) (UInt8.ofNat (hi.toNat <<< 4 ||| lo.toNat) :: output))
    {s b : Bytes} (heven : s.length % 2 = 0) (h : hexPairs s = .ok b) : P s b := by
  induction s using hexPairs.induct generalizing b with
  | case1 hiDigit loDigit rest ih =>
    rw [hexPairs] at h
    obtain ⟨hi, hhi, h⟩ := bind_eq_ok h
    obtain ⟨lo, hlo, h⟩ := bind_eq_ok h
    obtain ⟨output, houtput, h⟩ := bind_eq_ok h
    rw [← Except.ok.inj h]
    exact pair hhi hlo (ih (by simp only [List.length_cons] at heven; omega) houtput)
  | case2 s hshort =>
    obtain rfl : s = [] := nil_of_even heven hshort
    rw [← Except.ok.inj h]
    exact nil

theorem hexPairs_of_digits (s : Bytes) (heven : s.length % 2 = 0) (hall : ∀ c ∈ s, IsHexDigit c) :
    ∃ b, hexPairs s = .ok b := by
  induction s using hexPairs.induct with
  | case1 hiDigit loDigit rest ih =>
    obtain ⟨hi, hhi⟩ := hall hiDigit (by simp)
    obtain ⟨lo, hlo⟩ := hall loDigit (by simp)
    obtain ⟨b, hb⟩ := ih (by simp only [List.length_cons] at heven; omega)
      fun c hc => hall c (by simp [hc])
    rw [hexPairs, hhi, hlo, hb]
    exact ⟨_, rfl⟩
  | case2 s hshort =>
    obtain rfl : s = [] := nil_of_even heven hshort
    exact ⟨[], rfl⟩

theorem digits_of_hexPairs {s b : Bytes} (heven : s.length % 2 = 0) (h : hexPairs s = .ok b) :
    ∀ c ∈ s, IsHexDigit c := by
  refine hexPairs_induction (P := fun s _ => ∀ c ∈ s, IsHexDigit c) nofun ?_ heven h
  intro c d hi lo rest output hhi hlo hrest x hx
  rcases List.mem_cons.mp hx with rfl | hx
  · exact ⟨hi, hhi⟩
  · rcases List.mem_cons.mp hx with rfl | hx
    · exact ⟨lo, hlo⟩
    · exact hrest x hx

theorem hexToString_ok_iff {s : Bytes} : (∃ b, hexToString s = .ok b) ↔ IsHexText s := by
  rw [hexToString, Nat.and_one_is_mod, IsHexText]
  by_cases heven : s.length % 2 = 0
  · rw [if_neg (not_not.mpr heven)]
    exact ⟨fun ⟨b, hb⟩ => ⟨heven, digits_of_hexPairs heven hb⟩,
      fun h => hexPairs_of_digits s heven h.2⟩
  · rw [if_pos heven]
    exact ⟨fun ⟨_, hb⟩ => (nomatch hb), fun h => absurd h.1 heven⟩

theorem hexPairs_of_hexToString {s b : Bytes} (h : hexToString s = .ok b) :
    s.length % 2 = 0 ∧ hexPairs s = .ok b := by
  have heven := (hexToString_ok_iff.mp ⟨b, h⟩).1
  rw [hexToString, Nat.and_one_is_mod, if_neg (not_not.mpr heven)] at h
  exact ⟨heven, h⟩

theorem length_hexToString {s b : Bytes} (h : hexToString s = .ok b) : 2 * b.length = s.length := by
  obtain ⟨heven, hpairs⟩ := hexPairs_of_hexToString h
  refine hexPairs_induction (P := fun s b => 2 * b.length = s.length) rfl ?_ heven hpairs
  intro c d hi lo rest output _ _ hrest
  simp only [List.length_cons]
  omega

theorem length_hexToBytes (s : Bytes) : (hexToBytes s).length = (s.length + 1) / 2 := by
  induction s using hexToBytes.induct with
  | case1 c d hex ih =>
    rw [hexToBytes, List.length_cons, ih, List.length_cons, List.length_cons]
    omega
  | case2 c => simp [hexToBytes]
  | case3 => simp [hexToBytes]

structure DigitEntry (c : UInt8) (v : Int) : Prop where
  entry : hexValues.getD c.toNat (-1) = v
  nonneg : 0 ≤ v
  lt : v < 16
  not_space : isSpace c = false
  not_minus : c ≠ chr '-'
  not_plus : c ≠ chr '+'

theorem digitEntry_of_ok {c : UInt8} {v : Int} (h : hexValue c = .ok v) : DigitEntry c v := by
  have all : ∀ c : UInt8, hexValues.getD c.toNat (-1) ≠ -1 →
      (0 ≤ hexValues.getD c.toNat (-1) ∧ hexValues.getD c.toNat (-1) < 16) ∧
        isSpace c = false ∧ c ≠ chr '-' ∧ c ≠ chr '+' := forall_byte (by decide +kernel)
  simp only [hexValue] at h
  split at h
  · cases h
  · rename_i hne
    obtain ⟨⟨hnonneg, hlt⟩, hspace, hminus, hplus⟩ := all c hne
    obtain rfl := Except.ok.inj h
    exact ⟨rfl, hnonneg, hlt, hspace, hminus, hplus⟩

theorem strtol_pair {c d : UInt8} {hi lo : Int} (hc : hexValue c = .ok hi)
    (hd : hexValue d = .ok lo) :
    UInt8.ofInt (strtol [c, d]) = UInt8.ofNat (hi.toNat <<< 4 ||| lo.toNat) := by
  have ec := digitEntry_of_ok hc
  have ed := digitEntry_of_ok hd
  obtain ⟨h, rfl⟩ := Int.eq_ofNat_of_zero_le ec.nonneg
  obtain ⟨l, rfl⟩ := Int.eq_ofNat_of_zero_le ed.nonneg
  have hl : l < 2 ^ 4 := by have := ed.lt; omega
  have hspace : [c, d].dropWhile isSpace = [c, d] :=
    List.dropWhile_cons_of_neg (by simp [ec.not_space])
  have hminus : ¬ [c, d].head? = some (chr '-') := fun h => ec.not_minus (Option.some.inj h)
  have hplus : ¬ [c, d].head? = some (chr '+') := fun h => ec.not_plus (Option.some.inj h)
  have hdigits : [c, d].takeWhile (fun c => hexValues.getD c.toNat (-1) ≠ -1) = [c, d] := by
    have hc : hexValues.getD c.toNat (-1) ≠ -1 := by rw [ec.entry]; omega
    have hd : hexValues.getD d.toNat (-1) ≠ -1 := by rw [ed.entry]; omega
    rw [List.takeWhile_cons, if_pos (decide_eq_true hc), List.takeWhile_cons,
      if_pos (decide_eq_true hd), List.takeWhile_nil]
  have hvalue : strtol [c, d] = ((h * 2 ^ 4 + l : Nat) : Int) := by
    simp only [strtol, hspace, hminus, hplus, hdigits, decide_false, Bool.or_self,
      Bool.false_eq_true, if_false, List.foldl_cons, List.foldl_nil, ec.entry, ed.entry]
    omega
  rw [hvalue, Int.toNat_natCast, Int.toNat_natCast, ← Nat.shiftLeft_add_eq_or_of_lt hl,
    Nat.shiftLeft_eq]
  apply UInt8.toNat_inj.mp
  rw [UInt8.ofInt, UInt8.toNat_ofNat', UInt8.toNat_ofNat']
  omega

theorem hexToBytes_of_hexToString {s b : Bytes} (h : hexToString s = .ok b) : hexToBytes s = b := by
  obtain ⟨heven, hpairs⟩ := hexPairs_of_hexToString h
  refine hexPairs_induction (P := fun s b => hexToBytes s = b) (by rw [hexToBytes]) ?_ heven hpairs
  intro c d hi lo rest output hhi hlo hrest
  rw [hexToBytes, strtol_pair hhi hlo, hrest]

theorem hexToBytes_append (s t : Bytes) (heven : s.length % 2 = 0) :
    hexToBytes (s ++ t) = hexToBytes s ++ hexToBytes t := by
  induction s using hexToBytes.induct with
  | case1 c d hex ih =>
    have hrest := ih (by simp only [List.length_cons] at heven; omega)
    rw [List.cons_append, List.cons_append, hexToBytes, hexToBytes, hrest, List.cons_append]
  | case2 c => cases heven
  | case3 => rw [List.nil_append, show hexToBytes [] = [] by rw [hexToBytes], List.nil_append]

theorem hexToString_of_isHexText {s : Bytes} (h : IsHexText s) :
    hexToString s = .ok (hexToBytes s) := by
  obtain ⟨b, hb⟩ := hexToString_ok_iff.mpr h
  rw [hexToBytes_of_hexToString hb, hb]

theorem isHexDigit_iff {c : UInt8} : IsHexDigit c ↔
    (chr '0' ≤ c ∧ c ≤ chr '9') ∨ (chr 'a' ≤ c ∧ c ≤ chr 'f') ∨ (chr 'A' ≤ c ∧ c ≤ chr 'F') := by
  have all : ∀ c : UInt8, (hexValue c).isOk = true ↔ (chr '0' ≤ c ∧ c ≤ chr '9') ∨
      (chr 'a' ≤ c ∧ c ≤ chr 'f') ∨ (chr 'A' ≤ c ∧ c ≤ chr 'F') := forall_byte (by decide +kernel)
  rw [← all c, IsHexDigit]
  cases hexValue c with
  | error e => exact iff_of_false nofun nofun
  | ok v => exact iff_of_true ⟨v, rfl⟩ rfl

theorem stringToHex_ascii {s : Bytes} {b : UInt8} (h : b ∈ stringToHex s) : b ≤ 0x7f := by
  have all : ∀ n < 16, hexDigits.getD n 0 ≤ 0x7f := by decide +kernel
  obtain ⟨c, -, hb⟩ := List.mem_flatMap.mp h
  have hc := c.toNat_lt
  simp only [List.mem_cons, List.not_mem_nil, or_false] at hb
  rcases hb with rfl | rfl
  · exact all _ (by rw [toNat_high]; omega)
  · exact all _ (by rw [toNat_low]; omega)

end MxSdk.Hex
