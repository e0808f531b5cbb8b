import MxSdk.Vendor.Integer

/-! internal/biguint.cpp. A `BigUInt` keeps the text it was built from; the
invariant is that the text reads as a number that is not negative. -/

namespace MxSdk

/-- What `what()` shows of a message: it is a C string. -/
def Exception.what : Exception → Bytes
  | invalidArgument what | lengthError what | runtimeError what | domainError what
  | outOfRange what | typeError _ what | optionException what => what.takeWhile (· ≠ 0)
  | badCast => ascii "std::bad_cast"
  | invalidAccess => []

structure BigUInt where
  value : Bytes
  accepted : ∃ n : Nat, Integer.parse value 10 = .ok n

namespace BigUInt

def invalidValue (value reason : Bytes) : Exception :=
  .invalidArgument (errorMsgValue ++ value ++ ascii ", reason: " ++ reason)

theorem accepted_of_parse {value : Bytes} {z : Int} (h : Integer.parse value 10 = .ok z)
    (hz : ¬ z < 0) : ∃ n : Nat, Integer.parse value 10 = .ok n :=
  ⟨z.toNat, by rw [h, Int.toNat_of_nonneg (Int.not_lt.mp hz)]⟩

def ofString (value : Bytes) : Except Exception BigUInt :=
  match h : Integer.parse value 10 with
  | .error e => throw (invalidValue value e.what)
  | .ok number =>
    if hn : number < 0 then
      throw (invalidValue value (Exception.invalidArgument errorMsgNegativeValue).what)
    else .ok ⟨value, accepted_of_parse h hn⟩

theorem accepted_decimal (n : Nat) :
    ∃ m : Nat, Integer.parse (Decimal.decimal n) 10 = .ok m :=
  ⟨n, by rw [Integer.parse_digits fun _ => Decimal.decimal_isDigit, Decimal.value_decimal]⟩

def ofUInt64 (value : UInt64) : BigUInt := ⟨Decimal.decimal value.toNat, accepted_decimal _⟩

@[ext] theorem ext_value {a b : BigUInt} (h : a.value = b.value) : a = b := by
  cases a
  cases b
  simp_all

instance : DecidableEq BigUInt := fun a b =>
  decidable_of_iff (a.value = b.value) ⟨ext_value, fun h => h ▸ rfl⟩

/-- `operator==` compares the texts. -/
def equals (a b : BigUInt) : Bool := a.value = b.value

theorem equals_iff {a b : BigUInt} : a.equals b = true ↔ a = b := by
  rw [equals, decide_eq_true_eq]
  exact ⟨ext_value, fun h => h ▸ rfl⟩

theorem ofString_value (a : BigUInt) : ofString a.value = .ok a := by
  obtain ⟨n, hn⟩ := a.accepted
  unfold ofString
  split
  · rename_i e he
    rw [hn] at he
    cases he
  · rename_i z hz
    rw [hn] at hz
    rw [dif_neg (by rw [← Except.ok.inj hz]; omega)]

theorem ofString_eq_ok_iff {s : Bytes} {a : BigUInt} : ofString s = .ok a ↔ a.value = s := by
  constructor
  · intro h
    unfold ofString at h
    split at h
    · cases h
    · split at h
      · cases h
      · rw [← Except.ok.inj h]
  · rintro rfl
    exact ofString_value a

theorem ofString_error {s : Bytes} {e : Exception} (h : ofString s = .error e) :
    e.IsInvalidArgument := by
  unfold ofString at h
  split at h
  · rw [← Except.error.inj h]
    trivial
  · split at h
    · rw [← Except.error.inj h]
      trivial
    · cases h

theorem value_ascii (a : BigUInt) : ∀ c ∈ a.value, c ≤ 0x7f := by
  obtain ⟨n, hn⟩ := a.accepted
  exact Integer.parse_ok_ascii hn

end BigUInt

end MxSdk
