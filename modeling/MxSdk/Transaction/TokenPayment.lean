import MxSdk.Internal.BigUIntNumber

/-! transaction/token_payment.cpp. An amount is read as text: without a point it is a
numeral, with one it is an integer part and a fraction, which is cut or padded to the
decimals of the token. The number of zeros that pad it goes through an `int`. -/

namespace MxSdk

structure TokenPayment where
  tokenIdentifier : Bytes
  nonce : UInt64
  value : BigUInt
  numDecimals : UInt32
  deriving DecidableEq

namespace TokenPayment
open Decimal

def point : UInt8 := chr '.'

def isZero (c : UInt8) : Bool := c = zero

def isPoint (c : UInt8) : Bool := c = point

def hasLeadingZeroes : Bytes → Bool
  | first :: second :: _ => isZero first && !isPoint second
  | _ => false

def removePoint (s : Bytes) : Bytes := s.filter (!isPoint ·)

def isValidNumber (s : Bytes) : Bool :=
  if hasLeadingZeroes s then false
  else
    let val := removePoint s
    !val.isEmpty && val.all isDigit

/-- `int(n)` of an unsigned value. -/
def toInt (n : Int) : Int := n.bmod (2 ^ 32)

def zeroes (count : Nat) : Bytes := List.replicate count zero

/-- Where a character is last found in a string that has it. -/
def findLastOf (s : Bytes) (c : UInt8) : Nat := s.length - 1 - s.reverse.idxOf c

def bigUIntFromVal (value : Bytes) (numDecimals : UInt32) : Except Exception BigUInt :=
  let pointCt := value.count point
  if 1 < pointCt then throw (.invalidArgument (errorMsgValue ++ value))
  else if !isValidNumber value then throw (.invalidArgument (errorMsgValue ++ value))
  else if pointCt = 0 then BigUInt.ofString (value ++ zeroes numDecimals.toNat)
  else
    let dotPosition := findLastOf value point
    let first := value.take dotPosition
    let first := if first = [zero] then [] else first
    let second := value.drop (dotPosition + 1)
    let secondLen := second.length
    let second :=
      if numDecimals.toNat < secondLen then second.take numDecimals.toNat
      else
        let zeroesCt := max (toInt (numDecimals.toNat - secondLen)) 0
        second ++ zeroes zeroesCt.toNat
    BigUInt.ofString (first ++ second)

def fungibleFromAmount (tokenIdentifier amount : Bytes) (numDecimals : UInt32) :
    Except Exception TokenPayment := do
  let amountBigUInt ← bigUIntFromVal amount numDecimals
  .ok ⟨tokenIdentifier, 0, amountBigUInt, numDecimals⟩

def fungibleFromBigUInt (tokenIdentifier : Bytes) (value : BigUInt) (numDecimals : UInt32) :
    TokenPayment :=
  ⟨tokenIdentifier, 0, value, numDecimals⟩

def nonFungible (tokenIdentifier : Bytes) (nonce : UInt64) : Except Exception TokenPayment := do
  .ok ⟨tokenIdentifier, nonce, ← BigUInt.ofString (ascii "1"), 0⟩

def semiFungible (tokenIdentifier : Bytes) (nonce : UInt64) (quantity : BigUInt) : TokenPayment :=
  ⟨tokenIdentifier, nonce, quantity, 0⟩

def metaESDTFromAmount (tokenIdentifier : Bytes) (nonce : UInt64) (amount : Bytes)
    (numDecimals : UInt32) : Except Exception TokenPayment := do
  let amountBigInt ← bigUIntFromVal amount numDecimals
  .ok ⟨tokenIdentifier, nonce, amountBigInt, numDecimals⟩

def metaESDTFromBigUInt (tokenIdentifier : Bytes) (nonce : UInt64) (value : BigUInt)
    (numDecimals : UInt32) : TokenPayment :=
  ⟨tokenIdentifier, nonce, value, numDecimals⟩

def toString (payment : TokenPayment) : Bytes := payment.value.value

def toPrettyString (payment : TokenPayment) : Except Exception Bytes := do
  let denominator ← bigUIntFromVal (ascii "1") payment.numDecimals
  let divMod ← payment.value.divmod denominator
  let zeroesCt := max (toInt (denominator.value.length - divMod.2.value.length) - 1) 0
  let second := zeroes zeroesCt.toNat ++ divMod.2.value
  .ok (divMod.1.value ++ ascii "." ++ second ++ ascii " " ++ payment.tokenIdentifier)

def integerPart (a : Bytes) : Bytes := a.takeWhile (· ≠ point)

def fraction (a : Bytes) : Bytes := (a.dropWhile (· ≠ point)).drop 1

structure HasPoint (a : Bytes) : Prop where
  text : a = integerPart a ++ point :: fraction a
  integer : ∀ c ∈ integerPart a, isDigit c = true
  fraction : ∀ c ∈ fraction a, isDigit c = true
  ne_nil : integerPart a ++ TokenPayment.fraction a ≠ []
  head : integerPart a ≠ [] → IsNumeral (integerPart a)

theorem isDigit_ne_point {c : UInt8} (h : isDigit c = true) : c ≠ point := by
  rintro rfl
  cases h

theorem removePoint_digits {s : Bytes} (h : ∀ c ∈ s, isDigit c = true) : removePoint s = s :=
  List.filter_eq_self.mpr fun c hc => by simpa [isPoint] using isDigit_ne_point (h c hc)

theorem count_digits {s : Bytes} (h : ∀ c ∈ s, isDigit c = true) : s.count point = 0 :=
  List.count_eq_zero.mpr fun hp => isDigit_ne_point (h _ hp) rfl

section Parts
variable {i f : Bytes}

theorem integerPart_append (hi : ∀ c ∈ i, isDigit c = true) :
    integerPart (i ++ point :: f) = i := by
  rw [integerPart, List.takeWhile_append_of_pos fun c hc => by
    simpa using isDigit_ne_point (hi c hc)]
  simp

theorem fraction_append (hi : ∀ c ∈ i, isDigit c = true) :
    fraction (i ++ point :: f) = f := by
  rw [fraction, List.dropWhile_append_of_pos fun c hc => by
    simpa using isDigit_ne_point (hi c hc)]
  simp

theorem findLastOf_append (hf : ∀ c ∈ f, isDigit c = true) :
    findLastOf (i ++ point :: f) point = i.length := by
  have hnot : point ∉ f.reverse := fun h =>
    isDigit_ne_point (hf _ (List.mem_reverse.mp h)) rfl
  rw [findLastOf, List.reverse_append, List.reverse_cons, List.append_assoc,
    List.singleton_append, List.idxOf_append_of_notMem hnot, List.idxOf_cons_self]
  simp

theorem hasPoint_append (hi : ∀ c ∈ i, isDigit c = true) (hf : ∀ c ∈ f, isDigit c = true)
    (hne : i ++ f ≠ []) (hhead : i ≠ [] → IsNumeral i) : HasPoint (i ++ point :: f) := by
  have hint := integerPart_append (f := f) hi
  have hfrac := fraction_append (f := f) hi
  exact ⟨by rw [hint, hfrac], by rwa [hint], by rwa [hfrac], by rwa [hint, hfrac], by rwa [hint]⟩

end Parts

theorem isValidNumber_iff {s : Bytes} : isValidNumber s = true ↔
    hasLeadingZeroes s = false ∧ removePoint s ≠ [] ∧ ∀ c ∈ removePoint s, isDigit c = true := by
  rw [isValidNumber]
  cases hasLeadingZeroes s with
  | true => simp
  | false =>
    rw [if_neg Bool.false_ne_true, Bool.and_eq_true, Bool.not_eq_true',
      List.isEmpty_eq_false_iff, List.all_eq_true]
    exact ⟨fun h => ⟨rfl, h⟩, fun h => h.2⟩

theorem removePoint_of_count {s : Bytes} (h : s.count point = 0) : removePoint s = s :=
  List.filter_eq_self.mpr fun c hc => by
    have : c ≠ point := fun hp => List.count_eq_zero.mp h (hp ▸ hc)
    simpa [isPoint] using this

theorem removePoint_append (i f : Bytes) :
    removePoint (i ++ point :: f) = removePoint i ++ removePoint f := by
  rw [removePoint, List.filter_append, List.filter_cons_of_neg (by simp [isPoint])]
  rfl

theorem head_of_not_leading {i rest : Bytes} (hi : ∀ c ∈ i, isDigit c = true)
    (h : hasLeadingZeroes (i ++ rest) = false) : ∀ t, i = zero :: t → t = [] := by
  rintro t rfl
  cases t with
  | nil => rfl
  | cons c t =>
    have hc : c ≠ point := isDigit_ne_point (hi c (by simp))
    simp [hasLeadingZeroes, isZero, isPoint, hc] at h

theorem not_leading_of_isNumeral {i rest : Bytes} (hi : IsNumeral i)
    (hrest : ∀ c t, rest = c :: t → c = point) : hasLeadingZeroes (i ++ rest) = false := by
  obtain ⟨first, tail, rfl⟩ := List.exists_cons_of_ne_nil hi.ne_nil
  cases tail with
  | nil =>
    cases rest with
    | nil => rfl
    | cons c t => simp [hasLeadingZeroes, isPoint, hrest c t rfl]
  | cons second tail =>
    have hfirst : first ≠ zero := by
      rintro rfl
      cases hi.head (second :: tail) rfl
    simp [hasLeadingZeroes, isZero, hfirst]

theorem isNumeral_of_valid {a : Bytes} (h : isValidNumber a = true) (hcount : a.count point = 0) :
    IsNumeral a := by
  obtain ⟨hzero, hne, hdigits⟩ := isValidNumber_iff.mp h
  rw [removePoint_of_count hcount] at hne hdigits
  exact ⟨hdigits, hne, @head_of_not_leading _ [] hdigits (by rwa [List.append_nil])⟩

theorem valid_of_isNumeral {a : Bytes} (h : IsNumeral a) : isValidNumber a = true := by
  have hzero := @not_leading_of_isNumeral _ [] h nofun
  rw [List.append_nil] at hzero
  rw [isValidNumber_iff, removePoint_of_count (count_digits h.digits)]
  exact ⟨hzero, h.ne_nil, h.digits⟩

theorem hasPoint_of_valid {a : Bytes} (h : isValidNumber a = true) (hcount : a.count point = 1) :
    HasPoint a := by
  obtain ⟨i, f, rfl⟩ := List.append_of_mem (List.count_pos_iff.mp (hcount ▸ Nat.one_pos))
  obtain ⟨hzero, hne, hdigits⟩ := isValidNumber_iff.mp h
  rw [List.count_append, List.count_cons_self] at hcount
  rw [removePoint_append, removePoint_of_count (s := i) (by omega),
    removePoint_of_count (s := f) (by omega)] at hne hdigits
  have hi : ∀ c ∈ i, isDigit c = true := fun c hc => hdigits c (List.mem_append_left _ hc)
  exact hasPoint_append hi (fun c hc => hdigits c (List.mem_append_right _ hc)) hne
    fun hnil => ⟨hi, hnil, head_of_not_leading hi hzero⟩

theorem valid_of_hasPoint {a : Bytes} (h : HasPoint a) :
    isValidNumber a = true ∧ a.count point = 1 := by
  have hint := h.integer
  have hfrac := h.fraction
  have hzero : hasLeadingZeroes a = false := by
    rw [h.text]
    by_cases hi : integerPart a = []
    · rw [hi]
      cases TokenPayment.fraction a <;> rfl
    · exact not_leading_of_isNumeral (h.head hi) fun c t ht => (List.cons.inj ht).1.symm
  constructor
  · rw [isValidNumber_iff]
    refine ⟨hzero, ?_⟩
    rw [h.text, removePoint_append, removePoint_digits hint, removePoint_digits hfrac]
    exact ⟨h.ne_nil, fun c hc => (List.mem_append.mp hc).elim (hint c) (hfrac c)⟩
  · rw [h.text, List.count_append, List.count_cons_self, count_digits hint, count_digits hfrac]

/-- The zeros that pad a fraction of `m` digits. -/
def padding (n : UInt32) (m : Nat) : Nat := (max (toInt (n.toNat - m)) 0).toNat

def scaled (f : Bytes) (n : UInt32) : Bytes :=
  if n.toNat < f.length then f.take n.toNat else f ++ zeroes (padding n f.length)

def scaledText (a : Bytes) (n : UInt32) : Bytes :=
  if point ∈ a then
    (if integerPart a = [zero] then [] else integerPart a) ++ scaled (fraction a) n
  else a ++ zeroes n.toNat

theorem zeroes_digits {k : Nat} : ∀ c ∈ zeroes k, isDigit c = true := fun _ => zeros_isDigit

theorem scaled_digits {f : Bytes} (hf : ∀ c ∈ f, isDigit c = true) (n : UInt32) :
    ∀ c ∈ scaled f n, isDigit c = true := by
  intro c hc
  rw [scaled] at hc
  split at hc
  · exact hf c (List.mem_of_mem_take hc)
  · rcases List.mem_append.mp hc with hc | hc
    · exact hf c hc
    · exact zeroes_digits c hc

/-- An amount that is a numeral, or digits around a point. -/
def Accepted (a : Bytes) : Prop := IsNumeral a ∨ HasPoint a

theorem not_mem_point {a : Bytes} (h : IsNumeral a) : point ∉ a :=
  fun hp => isDigit_ne_point (h.digits _ hp) rfl

theorem HasPoint.mem_point {a : Bytes} (h : HasPoint a) : point ∈ a := by
  rw [h.text]
  simp

theorem scaledText_digits {a : Bytes} (h : Accepted a) (n : UInt32) :
    ∀ c ∈ scaledText a n, isDigit c = true := by
  intro c hc
  rcases h with h | h
  · rw [scaledText, if_neg (not_mem_point h)] at hc
    rcases List.mem_append.mp hc with hc | hc
    · exact h.digits c hc
    · exact zeroes_digits c hc
  · rw [scaledText, if_pos h.mem_point] at hc
    rcases List.mem_append.mp hc with hc | hc
    · split at hc
      · cases hc
      · exact h.integer c hc
    · exact scaled_digits h.fraction n c hc

theorem bigUIntFromVal_eq {a : Bytes} (h : Accepted a) (n : UInt32) :
    bigUIntFromVal a n = BigUInt.ofString (scaledText a n) := by
  rcases h with h | h
  · rw [scaledText, if_neg (not_mem_point h)]
    simp only [bigUIntFromVal, count_digits h.digits, valid_of_isNumeral h]
    rfl
  · obtain ⟨hvalid, hcount⟩ := valid_of_hasPoint h
    obtain ⟨i, hi⟩ : ∃ i, integerPart a = i := ⟨_, rfl⟩
    obtain ⟨f, hf⟩ : ∃ f, TokenPayment.fraction a = f := ⟨_, rfl⟩
    have htext := h.text
    have hdigits := h.fraction
    rw [hi, hf] at htext
    rw [hf] at hdigits
    have hdot : findLastOf a point = i.length := by rw [htext, findLastOf_append hdigits]
    have hfirst : a.take i.length = i := by rw [htext, List.take_left]
    have hsecond : a.drop (i.length + 1) = f := by
      rw [htext, ← List.drop_drop, List.drop_left]
      rfl
    rw [scaledText, if_pos h.mem_point, hi, hf]
    simp only [bigUIntFromVal, hcount, hvalid, hdot, hfirst, hsecond]
    rfl

theorem accepted_of_ok {a : Bytes} {n : UInt32} {v : BigUInt} (h : bigUIntFromVal a n = .ok v) :
    Accepted a := by
  simp only [bigUIntFromVal] at h
  split at h
  · cases h
  · rename_i hpoints
    split at h
    · cases h
    · rename_i hvalid
      simp only [Bool.not_eq_true, Bool.not_eq_false'] at hvalid
      by_cases hcount : a.count point = 0
      · exact .inl (isNumeral_of_valid hvalid hcount)
      · exact .inr (hasPoint_of_valid hvalid (by omega))

theorem bigUIntFromVal_ok {a : Bytes} (h : Accepted a) (n : UInt32) :
    ∃ v, bigUIntFromVal a n = .ok v ∧ v.value = scaledText a n ∧
      v.toNat = Decimal.value (scaledText a n) := by
  rw [bigUIntFromVal_eq h]
  exact BigUInt.ofString_digits (scaledText_digits h n)

theorem bigUIntFromVal_spec {a : Bytes} {n : UInt32} {v : BigUInt}
    (h : bigUIntFromVal a n = .ok v) :
    Accepted a ∧ v.value = scaledText a n ∧ v.toNat = Decimal.value (scaledText a n) := by
  have ha := accepted_of_ok h
  obtain ⟨v', hv', hvalue, hnat⟩ := bigUIntFromVal_ok ha n
  rw [h] at hv'
  obtain rfl := Except.ok.inj hv'
  exact ⟨ha, hvalue, hnat⟩

end TokenPayment

end MxSdk
