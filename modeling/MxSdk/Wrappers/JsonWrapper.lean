import MxSdk.Utils.Base64
import MxSdk.Vendor.Json.Parser
import MxSdk.Vendor.Json.Serializer

/-! wrappers/jsonwrapper.h. Whatever the library throws while a value is set, read or
parsed becomes an `invalid_argument`; only `dump` lets its exceptions through. -/

namespace MxSdk

/-- `internal::set` and `internal::at` for one type of values. -/
structure JsonType (α : Type) where
  put : α → Json
  get : Json → Option α
  get_put : ∀ a, get (put a) = some a

namespace JsonType

def string : JsonType Bytes where
  put := .string
  get := Json.getString
  get_put _ := rfl

def bytes : JsonType Bytes where
  put b := .string (Base64.encode b)
  get j := j.getString.map Base64.decode
  get_put b := congrArg some (Base64.decode_encode b)

variable [Platform]

def uint64 : JsonType UInt64 where
  put := .numberUnsigned
  get := Json.getUInt64
  get_put _ := rfl

def uint32 : JsonType UInt32 where
  put n := .numberUnsigned n.toUInt64
  get := Json.getUInt32
  get_put n := by rw [Json.getUInt32, UInt32.toUInt32_toUInt64]

end JsonType

abbrev OrderedJson := Json

namespace OrderedJson

variable {α : Type}

def contains (json : OrderedJson) (key : Bytes) : Bool := (json.find key).isSome

def empty : OrderedJson → Bool
  | .null => true
  | .array elements => elements.isEmpty
  | .object members => members.isEmpty
  | _ => false

def set (json : OrderedJson) (ty : JsonType α) (key : Bytes) (value : α) :
    Except Exception OrderedJson :=
  match json with
  | .null => .ok (.object [(key, ty.put value)])
  | .object members => .ok (.object (OrderedMap.assign key (ty.put value) members))
  | _ => throw (.invalidArgument (errorMsgJsonSet ++ key))

end OrderedJson

def keyNotFound (key : Bytes) : Exception := .invalidArgument (errorMsgJsonKeyNotFound ++ key)

def OrderedJson.at {α : Type} (json : OrderedJson) (ty : JsonType α) (key : Bytes) :
    Except Exception α :=
  match (json.find key).bind ty.get with
  | some value => .ok value
  | none => throw (keyNotFound key)

namespace OrderedJson

def serialize [Platform] (json : OrderedJson) : Except Exception Bytes :=
  if json.empty then throw (.invalidArgument errorMsgJsonSerializeEmpty) else json.dump

def deserialize (serialized : Bytes) : Except Exception OrderedJson :=
  match Json.parse serialized with
  | some json => .ok json
  | none => throw (.invalidArgument (errorMsgJsonSerialized ++ serialized))

variable {α : Type} {json json' : OrderedJson} {ty : JsonType α} {key : Bytes} {value : α}

theorem find_set (h : json.set ty key value = .ok json') (other : Bytes) :
    json'.find other = if key = other then some (ty.put value) else json.find other := by
  cases json with
  | null =>
    rw [← Except.ok.inj h]
    rfl
  | object members =>
    rw [← Except.ok.inj h]
    split
    · rename_i hkey
      rw [← hkey]
      exact OrderedMap.find_assign_self key _ members
    · rename_i hne
      exact OrderedMap.find_assign_of_ne hne _ members
  | boolean | numberUnsigned | numberInteger | numberFloat | string | array => cases h

theorem at_set_self (h : json.set ty key value = .ok json') : json'.at ty key = .ok value := by
  rw [OrderedJson.at, find_set h, if_pos rfl, Option.bind_some, ty.get_put]

theorem at_set_of_ne {β : Type} {other : Bytes} (ty' : JsonType β) (hne : key ≠ other)
    (h : json.set ty key value = .ok json') : json'.at ty' other = json.at ty' other := by
  rw [OrderedJson.at, OrderedJson.at, find_set h, if_neg hne]

end OrderedJson

end MxSdk
