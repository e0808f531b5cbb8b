import MxSdk.Vendor.IntegerRep

/-! Products, quotients and texts of the vendored `integer`, on what it stores. Division
goes through the bits of the dividend, and the texts are read and written with the
operators on stored integers. -/

namespace MxSdk

/-- `fft_mult`, on the digits. It computes in floating point and may leave zeros in front. -/
class FftDigits where
  fftMult : Bytes → Bytes → Bytes

namespace FftDigits

def Exact [FftDigits] : Prop := ∀ lhs rhs,
  BigEndian.value (fftMult lhs rhs) = BigEndian.value lhs * BigEndian.value rhs

@[reducible] def onNumbers [FftDigits] : FftMult :=
  ⟨fun lhs rhs => BigEndian.value (fftMult (BigEndian.bytes lhs) (BigEndian.bytes rhs))⟩

@[reducible] def long : FftDigits :=
  ⟨fun lhs rhs => BigEndian.bytes (BigEndian.value lhs * BigEndian.value rhs)⟩

theorem exact_onNumbers [FftDigits] (h : Exact) : @FftMult.Exact onNumbers := by
  intro lhs rhs
  change BigEndian.value (fftMult _ _) = _
  rw [h, BigEndian.value_bytes, BigEndian.value_bytes]

end FftDigits

namespace Integer.Rep

theorem eq_iff {a b : Rep} : a = b ↔ a.toInt = b.toInt := ⟨congrArg toInt, toInt_inj⟩

theorem toInt_one : (ofZ 4 1).toInt = 1 := toInt_ofZ (by decide)

def mul [FftDigits] (lhs rhs : Rep) : Rep :=
  if lhs.value = [] ∨ rhs.value = [] then ofZ 4 0
  else if lhs = ofZ 4 1 then rhs
  else if rhs = ofZ 4 1 then lhs
  else trim (lhs.negative ^^ rhs.negative) (FftDigits.fftMult lhs.value rhs.value)

theorem toInt_mul [FftDigits] (lhs rhs : Rep) :
    (lhs.mul rhs).toInt = @Integer.mul FftDigits.onNumbers lhs.toInt rhs.toInt := by
  rw [mul]
  simp only [Integer.mul, toInt_eq_zero_iff, natAbs_toInt, sign_toInt, eq_iff, toInt_one]
  split_ifs with hzero hl hr
  · exact toInt_zero
  · rfl
  · rfl
  · rw [not_or] at hzero
    change _ = signed _ (BigEndian.value (FftDigits.fftMult
      (BigEndian.bytes (BigEndian.value lhs.value)) (BigEndian.bytes (BigEndian.value rhs.value))))
    rw [toInt_trim, lhs.trimmed.bytes_value hzero.1, rhs.trimmed.bytes_value hzero.2]

/-- The loop of `bits` over the highest digit. -/
def bitLoop : Nat → Nat → Nat → Nat
  | 0, _, out => out
  | fuel + 1, msb, out => if msb = 0 then out else bitLoop fuel (msb >>> 1) (out + 1)

/-- `bits`. A digit has eight of them. -/
def bits (value : Bytes) : Nat :=
  match value with
  | [] => bitLoop 8 0 0
  | msb :: rest => bitLoop 8 msb.toNat (rest.length * 8)

/-- `operator[]`, the lowest bit at zero. -/
def bitAt (value : Bytes) (b : Nat) : Bool :=
  if b ≥ bits value then false
  else (value.getD (value.length - b / 8 - 1) 0).toNat >>> (b % 8) &&& 1 != 0

theorem bits_div_two {n : Nat} (h : n ≠ 0) : Integer.bits n = Integer.bits (n / 2) + 1 := by
  rw [Integer.bits, if_neg h, Nat.log2_def, Integer.bits]
  by_cases hone : n = 1
  · rw [hone]
    rfl
  · rw [if_pos (by omega), if_neg (by omega)]

theorem bitLoop_eq {fuel msb : Nat} (h : msb < 2 ^ fuel) (out : Nat) :
    bitLoop fuel msb out = out + Integer.bits msb := by
  induction fuel generalizing msb out with
  | zero =>
    have hzero : msb = 0 := by omega
    rw [hzero]
    rfl
  | succ fuel ih =>
    rw [bitLoop]
    split
    · next hzero =>
      rw [hzero]
      rfl
    · next hpos =>
      rw [Nat.shiftRight_eq_div_pow, pow_one, ih (by omega), bits_div_two hpos]
      omega

theorem bits_append {m k low : Nat} (hm : m ≠ 0) (hlow : low < 256 ^ k) :
    Integer.bits (m * 256 ^ k + low) = Integer.bits m + k * 8 := by
  have hpow : 256 ^ k = 2 ^ (k * 8) := by
    rw [show (256 : Nat) = 2 ^ 8 from rfl, ← pow_mul, Nat.mul_comm]
  have hne : m * 256 ^ k + low ≠ 0 := by
    have hpos : 0 < m * 256 ^ k := Nat.mul_pos (Nat.pos_of_ne_zero hm) (Nat.pow_pos (by decide))
    omega
  have hlog : (m * 256 ^ k + low).log2 = m.log2 + k * 8 := by
    rw [Nat.log2_eq_iff hne]
    constructor
    · calc 2 ^ (m.log2 + k * 8) = 2 ^ m.log2 * 256 ^ k := by rw [hpow, pow_add]
        _ ≤ m * 256 ^ k := Nat.mul_le_mul_right _ (Nat.log2_self_le hm)
        _ ≤ m * 256 ^ k + low := Nat.le_add_right _ _
    · calc m * 256 ^ k + low < (m + 1) * 256 ^ k := by
            rw [Nat.add_one_mul]
            exact Nat.add_lt_add_left hlow _
        _ ≤ 2 ^ (m.log2 + 1) * 256 ^ k := Nat.mul_le_mul_right _ Nat.lt_log2_self
        _ = 2 ^ (m.log2 + k * 8 + 1) := by
            rw [hpow, ← pow_add]
            congr 1
            omega
  rw [Integer.bits, Integer.bits, if_neg hne, if_neg hm, hlog]
  omega

theorem bits_eq {value : Bytes} (h : BigEndian.Trimmed value) :
    bits value = Integer.bits (BigEndian.value value) := by
  cases value with
  | nil => rfl
  | cons msb rest =>
    have hmsb : msb.toNat ≠ 0 := fun hzero =>
      h (congrArg some (UInt8.toNat_inj.mp (hzero.trans UInt8.toNat_zero.symm)))
    rw [bits, bitLoop_eq msb.toNat_lt, BigEndian.value_cons,
      bits_append hmsb (BigEndian.value_lt rest), Nat.add_comm]

theorem bitAt_eq {value : Bytes} (h : BigEndian.Trimmed value) (b : Nat) :
    bitAt value b = (BigEndian.value value).testBit b := by
  have hbits := bits_eq h
  rw [bitAt]
  split
  · next hge =>
    have hlt := Integer.lt_two_pow_bits (BigEndian.value value)
    have hpow : 2 ^ Integer.bits (BigEndian.value value) ≤ 2 ^ b :=
      Nat.pow_le_pow_right (by decide) (hbits ▸ hge)
    exact (Nat.testBit_lt_two_pow (hlt.trans_le hpow)).symm
  · next hlt =>
    have hb : 2 ^ b ≤ BigEndian.value value := by
      have hne : BigEndian.value value ≠ 0 := by
        intro hzero
        rw [hbits, hzero] at hlt
        exact hlt (Nat.zero_le b)
      rw [hbits, Integer.bits, if_neg hne] at hlt
      exact (Nat.pow_le_pow_right (by decide) (by omega)).trans (Nat.log2_self_le hne)
    have hlen : b / 8 < value.length := by
      have hpow : 2 ^ b < 2 ^ (8 * value.length) := by
        rw [pow_mul]
        exact hb.trans_lt (BigEndian.value_lt value)
      have hexp := (Nat.pow_lt_pow_iff_right (by decide)).mp hpow
      omega
    have hindex : value.length - b / 8 - 1 = value.length - 1 - b / 8 := by omega
    rw [BigEndian.testBit_value, List.getD_eq_getElem?_getD, List.getD_eq_getElem?_getD,
      List.getElem?_reverse hlen, hindex, Nat.testBit, Nat.and_comm]

/-- One turn of `non_recursive_divmod`. -/
def divmodStep (lhs rhs : Rep) (x : Nat) (qr : Rep × Rep) : Rep × Rep :=
  let first := qr.1.shiftLeft 1
  let second := qr.2.shiftLeft 1
  let second := if bitAt lhs.value (x - 1) then second.add (ofZ 4 1) else second
  if second.ge rhs then (first.add (ofZ 4 1), second.sub rhs) else (first, second)

def divmodLoop (lhs rhs : Rep) : Nat → Rep × Rep → Rep × Rep
  | 0, qr => qr
  | x + 1, qr => divmodLoop lhs rhs x (divmodStep lhs rhs (x + 1) qr)

def nonRecursiveDivmod (lhs rhs : Rep) : Rep × Rep :=
  divmodLoop lhs rhs (bits lhs.value) (ofZ 4 0, ofZ 4 0)

def dm (lhs rhs : Rep) : Except Exception (Rep × Rep) :=
  if rhs.value = [] then throw (.domainError (ascii "Error: division or modulus by 0"))
  else if rhs = ofZ 4 1 then .ok (lhs, ofZ 4 0)
  else if lhs = rhs then .ok (ofZ 4 1, ofZ 4 0)
  else if lhs.value = [] then .ok (ofZ 4 0, ofZ 4 0)
  else if ltDigits lhs.value rhs.value then .ok (ofZ 4 0, lhs)
  else .ok (nonRecursiveDivmod lhs rhs)

def neg (n : Rep) : Rep := trim (!n.negative) n.value

def abs (n : Rep) : Rep := if n.negative = false then n else n.neg

/-- `divmod`. The sign of the quotient is set behind `trim`, so that a quotient of zero has
one where the operands differ in theirs. -/
def divmod (lhs rhs : Rep) : Except Exception ((Bool × Bytes) × Rep) := do
  let out ← dm lhs.abs rhs.abs
  .ok ((lhs.negative ^^ rhs.negative, out.1.value), if lhs.negative then out.2.neg else out.2)

def ofNat (n : Nat) : Rep := ofInt n

def stored (qr : Nat × Nat) : Rep × Rep := (ofNat qr.1, ofNat qr.2)

@[simp] theorem toInt_ofNat (n : Nat) : (ofNat n).toInt = n := toInt_ofInt n

@[simp] theorem value_ofNat (n : Nat) : BigEndian.value (ofNat n).value = n := by
  rw [← natAbs_toInt, toInt_ofNat, Int.natAbs_natCast]

@[simp] theorem negative_ofNat (n : Nat) : (ofNat n).negative = false := by
  rw [← sign_toInt, toInt_ofNat]
  exact decide_eq_false (by omega)

theorem eq_ofNat {n : Rep} {m : Nat} (h : n.toInt = m) : n = ofNat m :=
  toInt_inj (h.trans (toInt_ofNat m).symm)

theorem ofNat_inj {m n : Nat} : ofNat m = ofNat n ↔ m = n := by
  rw [eq_iff, toInt_ofNat, toInt_ofNat, Int.natCast_inj]

theorem ofNat_eq_nil {n : Nat} : (ofNat n).value = [] ↔ n = 0 := by
  rw [← toInt_eq_zero_iff, toInt_ofNat, Int.natCast_eq_zero]

theorem ofZ_eq {octets val : Nat} (h : val < 256 ^ octets) : ofZ octets val = ofNat val :=
  eq_ofNat (toInt_ofZ h)

theorem zero_eq : ofZ 4 0 = ofNat 0 := ofZ_eq (by decide)

theorem one_eq : ofZ 4 1 = ofNat 1 := ofZ_eq (by decide)

theorem shiftLeft_ofNat (n shift : Nat) : (ofNat n).shiftLeft shift = ofNat (n <<< shift) := by
  refine eq_ofNat ?_
  rw [toInt_shiftLeft, negative_ofNat, value_ofNat]
  rfl

theorem add_ofNat (m n : Nat) : (ofNat m).add (ofNat n) = ofNat (m + n) := by
  refine eq_ofNat ?_
  rw [toInt_add, toInt_ofNat, toInt_ofNat, add_eq, Int.natCast_add]

theorem sub_ofNat {m n : Nat} (h : n ≤ m) : (ofNat m).sub (ofNat n) = ofNat (m - n) := by
  refine eq_ofNat ?_
  rw [toInt_sub, toInt_ofNat, toInt_ofNat, sub_eq, Int.natCast_sub h]

theorem ge_ofNat {m n : Nat} : (ofNat m).ge (ofNat n) = true ↔ n ≤ m := by
  rw [ge_iff, toInt_ofNat, toInt_ofNat, Int.ofNat_le]

theorem lt_ofNat {m n : Nat} : ltDigits (ofNat m).value (ofNat n).value = true ↔ m < n := by
  rw [ltDigits_iff (ofNat m).trimmed (ofNat n).trimmed, value_ofNat, value_ofNat]

theorem divmodStep_ofNat (lhs rhs x : Nat) (qr : Nat × Nat) :
    divmodStep (ofNat lhs) (ofNat rhs) x (stored qr) =
      stored (Integer.divmodStep lhs rhs x qr) := by
  simp only [divmodStep, Integer.divmodStep, stored, one_eq, shiftLeft_ofNat,
    bitAt_eq (ofNat lhs).trimmed, value_ofNat, add_ofNat, ← apply_ite ofNat]
  generalize (if lhs.testBit (x - 1) = true then qr.2 <<< 1 + 1 else qr.2 <<< 1) = second
  by_cases hle : rhs ≤ second
  · rw [if_pos (ge_ofNat.mpr hle), if_pos hle, sub_ofNat hle]
  · rw [if_neg (mt ge_ofNat.mp hle), if_neg hle]

theorem divmodLoop_ofNat (lhs rhs x : Nat) (qr : Nat × Nat) :
    divmodLoop (ofNat lhs) (ofNat rhs) x (stored qr) =
      stored (Integer.divmodLoop lhs rhs x qr) := by
  induction x generalizing qr with
  | zero => rfl
  | succ x ih => rw [divmodLoop, divmodStep_ofNat, ih, Integer.divmodLoop]

theorem dm_ofNat (m n : Nat) : dm (ofNat m) (ofNat n) = (Integer.dm m n).map stored := by
  have hloop : nonRecursiveDivmod (ofNat m) (ofNat n) =
      stored (Integer.nonRecursiveDivmod m n) := by
    rw [nonRecursiveDivmod, bits_eq (ofNat m).trimmed, value_ofNat, zero_eq]
    exact divmodLoop_ofNat m n _ (0, 0)
  simp only [dm, Integer.dm, ofNat_eq_nil, zero_eq, one_eq, ofNat_inj, lt_ofNat, hloop]
  split_ifs <;> rfl

def strLoop (base : Rep) : Nat → Rep → Bytes → Except Exception Bytes
  | 0, _, out => .ok out
  | fuel + 1, rhs, out => do
    let qr ← dm rhs base
    let out := digits.getD (BigEndian.value qr.2.value) 0 :: out
    if qr.1.value = [] then .ok out else strLoop base fuel qr.1 out

/-- `str(base)` without padding, in the bases up to 16. -/
def str (negative : Bool) (value : Bytes) (base : Nat) : Except Exception Bytes := do
  if 2 ≤ base ∧ base ≤ 16 then
    let rhs := trim false value
    let out ← if negative = false ∧ value = [] then .ok [Decimal.zero]
      else strLoop (ofZ 4 base) (BigEndian.value value + 1) rhs []
    .ok (if negative then chr '-' :: out else out)
  else throw (.runtimeError (ascii "Error: Cannot convert to base " ++ Decimal.decimal base))

theorem strLoop_ofNat (base fuel n : Nat) (out : Bytes) :
    strLoop (ofNat base) fuel (ofNat n) out = Integer.strLoop base fuel n out := by
  induction fuel generalizing n out with
  | zero => rfl
  | succ fuel ih =>
    rw [strLoop, Integer.strLoop, dm_ofNat]
    cases hdm : Integer.dm n base with
    | error e => rfl
    | ok qr =>
      simp only [Except.map, bind, Except.bind, stored, value_ofNat, ofNat_eq_nil, ih]

theorem str_eq (n : Rep) {base : Nat} :
    str n.negative n.value base = Integer.str n.toInt base := by
  rw [str, Integer.str]
  split
  · next h =>
    have hsign : n.toInt < 0 ↔ n.negative = true := by rw [← sign_toInt, sign, decide_eq_true_eq]
    have hzero : (n.negative = false ∧ n.value = []) ↔ n.toInt = 0 := by
      rw [toInt_eq_zero_iff]
      exact ⟨And.right, fun hnil => ⟨n.zero_positive hnil, hnil⟩⟩
    have hrhs : trim false n.value = ofNat n.toInt.natAbs := by
      refine eq_ofNat ?_
      rw [toInt_trim, natAbs_toInt]
      rfl
    have hbase : ofZ 4 base = ofNat base := ofZ_eq (by omega)
    have hdigits (hne : n.toInt ≠ 0) : strLoop (ofNat base) (n.toInt.natAbs + 1)
        (ofNat n.toInt.natAbs) [] = Integer.strLoop base n.toInt.natAbs n.toInt.natAbs [] := by
      have hpos := Int.natAbs_pos.mpr hne
      rw [strLoop_ofNat, strLoop_eq h.1 hpos (Nat.le_succ _), strLoop_eq h.1 hpos le_rfl]
    simp only [hzero, hrhs, hbase, ← natAbs_toInt, hsign]
    by_cases hz : n.toInt = 0
    · simp only [if_pos hz]
    · simp only [if_neg hz, hdigits hz]
  · rfl

/-- One character of the string constructor. -/
def accumulate [FftDigits] (base : Nat) (n : Rep) (c : UInt8) : Except Exception Rep :=
  match digit c with
  | none => throw (notADigit base c)
  | some d =>
    if base ≤ d then throw (notADigit base c) else .ok ((n.mul (ofZ 4 base)).add (ofZ 1 d))

/-- The string constructor, in the bases up to 16. -/
def parse [FftDigits] (str : Bytes) (base : Nat) : Except Exception Rep :=
  match str with
  | [] => .ok (ofZ 4 0)
  | c :: digits =>
    if c = chr '-' then
      if digits = [] then throw (.runtimeError (ascii "Error: Input string is too short"))
      else do
        let n ← digits.foldlM (accumulate base) (ofZ 4 0)
        .ok (trim true n.value)
    else do
      let n ← (c :: digits).foldlM (accumulate base) (ofZ 4 0)
      .ok (trim false n.value)

theorem digit_lt {c : UInt8} {d : Nat} (h : digit c = some d) : d < 16 := by
  have all : ∀ c, ∀ d ∈ (digit c).toList, d < 16 := forall_byte (by decide +kernel)
  exact all c d (by simp [h])

theorem mul_ofNat [FftDigits] (hfft : FftDigits.Exact) (m n : Nat) :
    (ofNat m).mul (ofNat n) = ofNat (m * n) := by
  refine eq_ofNat ?_
  rw [toInt_mul, @mul_eq FftDigits.onNumbers (FftDigits.exact_onNumbers hfft), toInt_ofNat,
    toInt_ofNat, Int.natCast_mul]

theorem accumulate_ofNat [FftDigits] (hfft : FftDigits.Exact) {base : Nat} (hbase : base ≤ 16)
    (n : Nat) (c : UInt8) :
    accumulate base (ofNat n) c = (Integer.accumulate base n c).map ofNat := by
  rw [accumulate, Integer.accumulate]
  cases hd : digit c with
  | none => rfl
  | some d =>
    have hlt := digit_lt hd
    simp only
    split
    · rfl
    · rw [ofZ_eq (show base < 256 ^ 4 by omega), ofZ_eq (show d < 256 ^ 1 by omega),
        mul_ofNat hfft, add_ofNat]
      rfl

theorem foldlM_ofNat [FftDigits] (hfft : FftDigits.Exact) {base : Nat} (hbase : base ≤ 16)
    (s : Bytes) (n : Nat) : s.foldlM (accumulate base) (ofNat n) =
      (s.foldlM (Integer.accumulate base) n).map ofNat := by
  induction s generalizing n with
  | nil => rfl
  | cons c s ih =>
    rw [List.foldlM_cons, List.foldlM_cons, accumulate_ofNat hfft hbase]
    cases Integer.accumulate base n c with
    | error e => rfl
    | ok m => exact ih m

theorem parse_eq [FftDigits] (hfft : FftDigits.Exact) {base : Nat} (hbase : base ≤ 16)
    (s : Bytes) : parse s base = (Integer.parse s base).map ofInt := by
  have hneg (n : Nat) : trim true (ofNat n).value = ofInt (-n) := by
    refine toInt_inj ?_
    rw [toInt_trim, value_ofNat, toInt_ofInt]
    rfl
  have hpos (n : Nat) : trim false (ofNat n).value = ofInt n := by
    refine toInt_inj ?_
    rw [toInt_trim, value_ofNat, toInt_ofInt]
    rfl
  cases s with
  | nil => exact congrArg Except.ok zero_eq
  | cons c s =>
    simp only [parse, Integer.parse, zero_eq, foldlM_ofNat hfft hbase]
    split_ifs
    · rfl
    · cases s.foldlM (Integer.accumulate base) 0 with
      | error e => rfl
      | ok n => exact congrArg Except.ok (hneg n)
    · cases (c :: s).foldlM (Integer.accumulate base) 0 with
      | error e => rfl
      | ok n => exact congrArg Except.ok (hpos n)

theorem dm_toInt {lhs rhs : Rep} (hl : 0 ≤ lhs.toInt) (hr : 0 < rhs.toInt) :
    ∃ q r, dm lhs rhs = .ok (q, r) ∧ q.toInt = lhs.toInt / rhs.toInt ∧
      r.toInt = lhs.toInt % rhs.toInt := by
  obtain ⟨m, hm⟩ := Int.eq_ofNat_of_zero_le hl
  obtain ⟨n, hn⟩ := Int.eq_ofNat_of_zero_le hr.le
  have hpos : 0 < n := by omega
  refine ⟨ofNat (m / n), ofNat (m % n), ?_, ?_, ?_⟩
  · rw [eq_ofNat hm, eq_ofNat hn, dm_ofNat, Integer.dm_eq m hpos]
    rfl
  · rw [hm, hn, ofNat, toInt_ofInt]
    rfl
  · rw [hm, hn, ofNat, toInt_ofInt]
    rfl

theorem parse_str [FftDigits] (hfft : FftDigits.Exact) (n : Rep) :
    ∃ text, str n.negative n.value 10 = .ok text ∧ parse text 10 = .ok n := by
  have hn : ofInt n.toInt = n := toInt_inj (toInt_ofInt _)
  obtain ⟨m, hm | hm⟩ := Int.eq_nat_or_neg n.toInt
  · refine ⟨Decimal.decimal m, ?_, ?_⟩
    · rw [str_eq, hm, str_natCast m (by decide), numeral_ten]
    · rw [parse_eq hfft (by decide), parse_digits fun _ => Decimal.decimal_isDigit,
        Decimal.value_decimal, ← hn, hm]
      rfl
  · by_cases hzero : m = 0
    · subst hzero
      refine ⟨Decimal.decimal 0, ?_, ?_⟩
      · rw [str_eq, hm]
        exact str_natCast 0 (by decide)
      · rw [parse_eq hfft (by decide), parse_digits fun _ => Decimal.decimal_isDigit,
          Decimal.value_decimal, ← hn, hm]
        rfl
    · refine ⟨chr '-' :: Decimal.decimal m, ?_, ?_⟩
      · rw [str_eq, hm, str_neg (Nat.pos_of_ne_zero hzero) (by decide), numeral_ten]
      · rw [parse_eq hfft (by decide), parse_minus (Decimal.decimal_ne_nil m)
          fun _ => Decimal.decimal_isDigit, Decimal.value_decimal, ← hn, hm]
        rfl

/-- The operators on the stored digits are those on the numbers, no two stored integers are the
same number, and decimals that are printed are read back. -/
theorem stored_calculates [FftDigits] (lhs rhs : Rep) : FftDigits.Exact →
    (lhs.toInt = rhs.toInt ↔ lhs = rhs) ∧ (gt lhs rhs = true ↔ rhs.toInt < lhs.toInt) ∧
      (lt lhs rhs = true ↔ lhs.toInt < rhs.toInt) ∧
      (lhs.add rhs).toInt = lhs.toInt + rhs.toInt ∧ (lhs.sub rhs).toInt = lhs.toInt - rhs.toInt ∧
      (lhs.mul rhs).toInt = lhs.toInt * rhs.toInt ∧
      (0 ≤ lhs.toInt → 0 < rhs.toInt → ∃ q r, dm lhs rhs = .ok (q, r) ∧
        q.toInt = lhs.toInt / rhs.toInt ∧ r.toInt = lhs.toInt % rhs.toInt) ∧
      ∃ text, str lhs.negative lhs.value 10 = .ok text ∧ parse text 10 = .ok lhs := by
  intro hfft
  have hmul : (lhs.mul rhs).toInt = lhs.toInt * rhs.toInt :=
    (toInt_mul lhs rhs).trans (@mul_eq FftDigits.onNumbers (FftDigits.exact_onNumbers hfft) _ _)
  exact ⟨eq_iff.symm, gt_iff, lt_iff, (toInt_add lhs rhs).trans (add_eq _ _),
    (toInt_sub lhs rhs).trans (sub_eq _ _), hmul, dm_toInt, parse_str hfft lhs⟩

theorem exact_long : @FftDigits.Exact .long := by
  intro lhs rhs
  exact BigEndian.value_bytes _

/-- 2 ^ 64 and 2 ^ 64 - 1 have different numbers of digits. -/
theorem stored_calculates_carry :
    @FftDigits.Exact .long ∧ ((ofInt (2 ^ 64 - 1)).add (ofInt 1)).toInt = 2 ^ 64 := by
  have hadd := (@stored_calculates .long (ofInt (2 ^ 64 - 1)) (ofInt 1) exact_long).2.2.2.1
  rw [toInt_ofInt, toInt_ofInt] at hadd
  exact ⟨exact_long, hadd⟩

end Integer.Rep

end MxSdk
