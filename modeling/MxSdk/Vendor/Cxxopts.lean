import MxSdk.Basic
import MxSdk.Lib.Decimal
import MxSdk.Lib.KeyedUpdate

/-! What the command line uses of the vendored option parser, from the point where an
option was recognised and its text found. A value keeps the type it was declared with,
and is read with a type that the caller names. -/

namespace MxSdk.Cxxopts

def quoted (text : Bytes) : Bytes := [0xe2, 0x80, 0x98] ++ text ++ [0xe2, 0x80, 0x99]

def optionNotExists (option : Bytes) : Exception :=
  .optionException (ascii "Option " ++ quoted option ++ ascii " does not exist")

def optionNotPresent (option : Bytes) : Exception :=
  .optionException (ascii "Option " ++ quoted option ++ ascii " not present")

def optionHasNoValue (option : Bytes) : Exception :=
  .optionException (if option.isEmpty then ascii "Option has no value"
    else ascii "Option " ++ quoted option ++ ascii " has no value")

def argumentIncorrectType (arg : Bytes) : Exception :=
  .optionException (ascii "Argument " ++ quoted arg ++ ascii " failed to parse")

inductive OptionType where
  | uint64
  | uint32
  | string
  | strings
  deriving DecidableEq

abbrev OptionType.Val : OptionType → Type
  | uint64 => UInt64
  | uint32 => UInt32
  | string => Bytes
  | strings => List Bytes

abbrev Value : Type := (ty : OptionType) × ty.Val

/-! `parse_value`. -/

structure IntegerDesc where
  negative : Bool
  /-- The prefix `0x` was there. -/
  base : Bool
  value : Bytes

def isAlnum (c : UInt8) : Bool :=
  Decimal.isDigit c || (chr 'a' ≤ c && c ≤ chr 'z') || (chr 'A' ≤ c && c ≤ chr 'Z')

/-- A `0x` with nothing behind it is no prefix. -/
def splitBase (text : Bytes) : Bool × Bytes :=
  match text with
  | 48 :: 120 :: c :: value => (true, c :: value)
  | _ => (false, text)

def splitInteger (text : Bytes) : Except Exception IntegerDesc :=
  let (negative, text') :=
    if text.head? = some (chr '-') then (true, text.tail) else (false, text)
  let (base, value) := splitBase text'
  if value.isEmpty || !value.all isAlnum then throw (argumentIncorrectType text)
  else .ok ⟨negative, base, value⟩

def integerDigit (base : Bool) (ch : UInt8) : Option Nat :=
  if Decimal.isDigit ch then some (ch.toNat - 48)
  else if base && chr 'a' ≤ ch && ch ≤ chr 'f' then some (ch.toNat - 97 + 10)
  else if base && chr 'A' ≤ ch && ch ≤ chr 'F' then some (ch.toNat - 65 + 10)
  else none

/-- The loop body of `integer_parser` in an unsigned type of `width` bits. -/
def integerStep (width : Nat) (text : Bytes) (base : Bool) (result : Nat) (ch : UInt8) :
    Except Exception Nat :=
  match integerDigit base ch with
  | none => throw (argumentIncorrectType text)
  | some digit =>
    let next := (result * (if base then 16 else 10) + digit) % 2 ^ width
    if next < result then throw (argumentIncorrectType text) else .ok next

def integerParser (width : Nat) (text : Bytes) : Except Exception Nat := do
  let intDesc ← splitInteger text
  let result ← intDesc.value.foldlM (integerStep width text intDesc.base) 0
  if intDesc.negative then throw (argumentIncorrectType text) else .ok result

/-- The `std::getline` loop over a text that is not empty: a last part that is empty was
ended by the text and not by the delimiter. -/
def getlines (delimiter : UInt8) (text : Bytes) : List Bytes :=
  let parts := text.splitOn delimiter
  if parts.getLast? = some [] then parts.dropLast else parts

def parseValue : (ty : OptionType) → Bytes → Except Exception ty.Val
  | .uint64, text => (integerParser 64 text).map UInt64.ofNat
  | .uint32, text => (integerParser 32 text).map UInt32.ofNat
  | .string, text => .ok text
  | .strings, text => .ok (if text.isEmpty then [[]] else getlines (chr ',') text)

structure OptionDetails where
  longName : Bytes
  type : OptionType
  defaultValue : Option Bytes
  deriving DecidableEq

structure OptionValue where
  longName : Bytes
  value : Option Value
  count : Nat
  hasDefault : Bool

/-- A vector that holds elements already gets more of them. -/
def stored : (ty : OptionType) → Option Value → ty.Val → ty.Val
  | .strings, some ⟨.strings, elements⟩, more => elements ++ more
  | _, _, value => value

namespace OptionValue

def new : OptionValue := ⟨[], none, 0, false⟩

def parse (t : OptionValue) (details : OptionDetails) (text : Bytes) :
    Except Exception OptionValue := do
  let value ← parseValue details.type text
  .ok ⟨details.longName, some ⟨details.type, stored details.type t.value value⟩, t.count + 1,
    t.hasDefault⟩

def parseDefault (t : OptionValue) (details : OptionDetails) (text : Bytes) :
    Except Exception OptionValue := do
  let value ← parseValue details.type text
  .ok ⟨details.longName, some ⟨details.type, stored details.type t.value value⟩, t.count, true⟩

def parseNoValue (t : OptionValue) (details : OptionDetails) : OptionValue :=
  { t with longName := details.longName }

def as (t : OptionValue) (ty : OptionType) : Except Exception ty.Val :=
  match t.value with
  | none => throw (optionHasNoValue t.longName)
  | some ⟨declared, value⟩ => if h : declared = ty then .ok (h ▸ value) else throw .badCast

/-- What the pass over all options makes of a store. -/
def finish (t : OptionValue) (details : OptionDetails) : Except Exception OptionValue :=
  match details.defaultValue with
  | none => .ok (t.parseNoValue details)
  | some text => if t.count = 0 ∧ !t.hasDefault then t.parseDefault details text else .ok t

end OptionValue

/-- The options that were recognised with their texts, in the order of the command line. -/
abbrev CommandLine := List (Bytes × Bytes)

structure ParseResult where
  options : List OptionDetails
  values : Bytes → OptionValue
  arguments : CommandLine

def find (options : List OptionDetails) (name : Bytes) : Option OptionDetails :=
  options.find? fun details => details.longName = name

def parseOption (options : List OptionDetails) (store : OptionValue) (arg : Bytes × Bytes) :
    Except Exception OptionValue :=
  match find options arg.1 with
  | none => throw (optionNotExists arg.1)
  | some details => store.parse details arg.2

def parse (options : List OptionDetails) (line : CommandLine) : Except Exception ParseResult := do
  let parsed ← KeyedUpdate.run Prod.fst (parseOption options) (fun _ => .new) line
  let values ← KeyedUpdate.run OptionDetails.longName OptionValue.finish parsed options
  .ok ⟨options, values, line⟩

namespace ParseResult

def count (t : ParseResult) (o : Bytes) : Nat :=
  match find t.options o with
  | none => 0
  | some _ => (t.values o).count

/-- `operator[]`. -/
def get (t : ParseResult) (option : Bytes) : Except Exception OptionValue :=
  match find t.options option with
  | none => throw (optionNotPresent option)
  | some _ => .ok (t.values option)

def getAs (t : ParseResult) (option : Bytes) (ty : OptionType) : Except Exception ty.Val := do
  (← t.get option).as ty

end ParseResult

section Numerals
open Decimal (isDigit digitValue)

variable {width : Nat}

end Numerals

theorem as_self {t : OptionValue} {ty : OptionType} {a : ty.Val} (h : t.value = some ⟨ty, a⟩) :
    t.as ty = .ok a := by
  rw [OptionValue.as, h]
  exact dif_pos rfl

theorem as_other {t : OptionValue} {ty ty' : OptionType} {a : ty.Val} (h : t.value = some ⟨ty, a⟩)
    (hne : ty ≠ ty') : t.as ty' = .error .badCast := by
  rw [OptionValue.as, h]
  exact dif_neg hne

theorem getAs_eq {t : ParseResult} {option : Bytes} {value : OptionValue}
    (h : t.get option = .ok value) (ty : OptionType) : t.getAs option ty = value.as ty := by
  rw [ParseResult.getAs, h]
  rfl

theorem mem_of_find {options : List OptionDetails} {name : Bytes} {details : OptionDetails}
    (h : find options name = some details) : details ∈ options ∧ details.longName = name := by
  rw [find] at h
  have hname := List.find?_some h
  exact ⟨List.mem_of_find?_eq_some h, of_decide_eq_true hname⟩

theorem stored_none (ty : OptionType) (value : ty.Val) : stored ty none value = value := by
  cases ty <;> rfl

section Parsed
variable {options : List OptionDetails} {line : CommandLine} {result : ParseResult}

theorem parse_eq_ok (h : parse options line = .ok result) : ∃ parsed,
    KeyedUpdate.run Prod.fst (parseOption options) (fun _ => .new) line = .ok parsed ∧
    KeyedUpdate.run OptionDetails.longName OptionValue.finish parsed options = .ok result.values ∧
    result.options = options ∧ result.arguments = line := by
  obtain ⟨parsed, hparsed, h⟩ := bind_eq_ok h
  obtain ⟨values, hvalues, h⟩ := bind_eq_ok h
  rw [← Except.ok.inj h]
  exact ⟨parsed, hparsed, hvalues, rfl, rfl⟩

theorem supplied (hoptions : (options.map OptionDetails.longName).Nodup)
    (hline : (line.map Prod.fst).Nodup) (h : parse options line = .ok result) {name text : Bytes}
    (hmem : (name, text) ∈ line) : ∃ details value, find options name = some details ∧
      parseValue details.type text = .ok value ∧
      result.values name = ⟨name, some ⟨details.type, value⟩, 1, false⟩ := by
  obtain ⟨parsed, hparsed, hvalues, -⟩ := parse_eq_ok h
  have hstore := KeyedUpdate.run_of_mem hline hparsed hmem
  rw [parseOption] at hstore
  cases hfind : find options name with
  | none => simp [hfind, throw, throwThe, MonadExceptOf.throw] at hstore
  | some details =>
    simp only [hfind] at hstore
    obtain ⟨value, hvalue, hstore⟩ := bind_eq_ok hstore
    obtain ⟨hdetails, hname⟩ := mem_of_find hfind
    have hfinish := KeyedUpdate.run_of_mem hoptions hvalues hdetails
    rw [hname, ← Except.ok.inj hstore, OptionValue.finish] at hfinish
    refine ⟨details, value, rfl, hvalue, ?_⟩
    cases hdefault : details.defaultValue with
    | none =>
      simp only [hdefault, OptionValue.parseNoValue, Except.ok.injEq] at hfinish
      rw [← hfinish, hname, OptionValue.new, stored_none]
    | some default =>
      simp only [hdefault] at hfinish
      rw [if_neg (by simp [OptionValue.new]), Except.ok.injEq] at hfinish
      rw [← hfinish, hname, OptionValue.new, stored_none]

theorem absent (hoptions : (options.map OptionDetails.longName).Nodup)
    (h : parse options line = .ok result) {name : Bytes} {details : OptionDetails}
    (hfind : find options name = some details) (hmem : name ∉ line.map Prod.fst) :
    OptionValue.new.finish details = .ok (result.values name) := by
  obtain ⟨parsed, hparsed, hvalues, -⟩ := parse_eq_ok h
  obtain ⟨hdetails, hname⟩ := mem_of_find hfind
  have hfinish := KeyedUpdate.run_of_mem hoptions hvalues hdetails
  rwa [hname, KeyedUpdate.run_of_notMem hparsed hmem] at hfinish

end Parsed

end MxSdk.Cxxopts
