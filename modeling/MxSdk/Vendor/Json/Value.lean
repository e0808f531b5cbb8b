import MxSdk.Basic
import MxSdk.Lib.OrderedMap

/-! `nlohmann::ordered_json` values, and the conversions `get<T>` makes of them. A
number is stored as a `uint64`, an `int64` or a finite `double`; the last is its
sign and its magnitude, which keeps the two zeros apart. -/

namespace MxSdk

structure Double where
  negative : Bool
  magnitude : ℚ
  deriving DecidableEq

def Double.toRat (x : Double) : ℚ := if x.negative then -x.magnitude else x.magnitude

inductive Json where
  | null
  | boolean (b : Bool)
  | numberUnsigned (n : UInt64)
  | numberInteger (n : Int64)
  | numberFloat (x : Double)
  | string (s : Bytes)
  | array (elements : List Json)
  | object (members : List (Bytes × Json))

namespace Json

/-- `json.contains(key)`, the value found included. Only objects have keys. -/
def find (key : Bytes) : Json → Option Json
  | object members => OrderedMap.find key members
  | _ => none

/-- `static_cast` from a `double`: the fraction is dropped, and a result out of the
range of the type is undefined. -/
def castFloat (w : Nat) (x : ℚ) : Option Nat :=
  let n := if 0 ≤ x then x.floor else x.ceil
  if 0 ≤ n ∧ n < 2 ^ w then some n.toNat else none

variable [Platform]

/-- `get<uint64_t>`, `none` where it throws a type error. -/
def getUInt64 : Json → Option UInt64
  | numberUnsigned n => some n
  | numberInteger n => some n.toUInt64
  | numberFloat x =>
    match castFloat 64 x.toRat with
    | some n => some (UInt64.ofNat n)
    | none => some (Platform.castUInt64 x.toRat)
  | _ => none

/-- `get<uint32_t>`, which also takes booleans. -/
def getUInt32 : Json → Option UInt32
  | numberUnsigned n => some n.toUInt32
  | numberInteger n => some n.toUInt64.toUInt32
  | numberFloat x =>
    match castFloat 32 x.toRat with
    | some n => some (UInt32.ofNat n)
    | none => some (Platform.castUInt32 x.toRat)
  | boolean b => some (if b then 1 else 0)
  | _ => none

def getString : Json → Option Bytes
  | string s => some s
  | _ => none

end Json

end MxSdk
