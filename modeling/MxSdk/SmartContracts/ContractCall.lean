import MxSdk.Account.Address
import MxSdk.Internal.BigUIntNumber
import MxSdk.Lib.Fields

/-! smartcontracts/sc_arguments.cpp and smartcontracts/contract_call.cpp. Arguments are
kept as hexadecimal texts, so that none of them holds the separator. -/

namespace MxSdk

/-- An argument, by the overload of `add` that takes it. -/
inductive SCArgument where
  | string (arg : Bytes)
  | bigUInt (arg : BigUInt)
  | address (arg : Address)

/-- The bytes a contract receives for it. -/
def SCArgument.raw : SCArgument → Bytes
  | string arg => arg
  | bigUInt arg => BigEndian.bytes arg.toNat
  | address arg => arg.publicKey

def IsHex (s : Bytes) : Prop := ∃ b, s = Hex.stringToHex b

theorem isHex_map (raws : List Bytes) : ∀ s ∈ raws.map Hex.stringToHex, IsHex s := by
  intro s hs
  obtain ⟨raw, -, rfl⟩ := List.mem_map.mp hs
  exact ⟨raw, rfl⟩

structure SCArguments where
  args : List Bytes
  isHex : ∀ arg ∈ args, IsHex arg

namespace SCArguments

def new : SCArguments := ⟨[], nofun⟩

theorem isHex_append {args : List Bytes} (h : ∀ arg ∈ args, IsHex arg) {val : Bytes}
    (hval : IsHex val) : ∀ arg ∈ args ++ [val], IsHex arg := by
  intro arg harg
  rcases List.mem_append.mp harg with harg | harg
  · exact h arg harg
  · rw [List.mem_singleton.mp harg]
    exact hval

def addString (t : SCArguments) (arg : Bytes) : SCArguments :=
  ⟨t.args ++ [Hex.stringToHex arg], isHex_append t.isHex ⟨arg, rfl⟩⟩

def addBigUInt (t : SCArguments) (arg : BigUInt) : Except Exception SCArguments :=
  match h : arg.getHexValue with
  | .error e => .error e
  | .ok val => .ok ⟨t.args ++ [val], isHex_append t.isHex
      ⟨_, Except.ok.inj (h.symm.trans arg.getHexValue_eq)⟩⟩

def addAddress (t : SCArguments) (arg : Address) : SCArguments :=
  ⟨t.args ++ [Hex.stringToHex arg.publicKey], isHex_append t.isHex ⟨arg.publicKey, rfl⟩⟩

def add (t : SCArguments) : SCArgument → Except Exception SCArguments
  | .string arg => .ok (t.addString arg)
  | .bigUInt arg => t.addBigUInt arg
  | .address arg => .ok (t.addAddress arg)

def addAll (t : SCArguments) (args : List SCArgument) : Except Exception SCArguments :=
  args.foldlM add t

def empty (t : SCArguments) : Bool := t.args.isEmpty

def asOnData (t : SCArguments) : Bytes := t.args.flatMap fun arg => chr '@' :: arg

def Holds (t : SCArguments) (raws : List Bytes) : Prop := t.args = raws.map Hex.stringToHex

/-- All overloads add the bytes of the argument. -/
theorem add_eq (t : SCArguments) (arg : SCArgument) : t.add arg = .ok (t.addString arg.raw) := by
  cases arg with
  | string arg => rfl
  | address arg => rfl
  | bigUInt arg =>
    rw [add, addBigUInt]
    split
    · rename_i e he
      rw [BigUInt.getHexValue_eq] at he
      cases he
    · rename_i val hval
      rw [BigUInt.getHexValue_eq] at hval
      obtain rfl := Except.ok.inj hval
      rfl

theorem holds_new : new.Holds [] := rfl

theorem holds_foldl {t : SCArguments} {raws : List Bytes} (h : t.Holds raws) (more : List Bytes) :
    (more.foldl addString t).Holds (raws ++ more) := by
  induction more generalizing t raws with
  | nil => rwa [List.append_nil]
  | cons arg more ih =>
    have hone : (t.addString arg).Holds (raws ++ [arg]) := by
      rw [Holds, List.map_append, ← h]
      rfl
    rw [List.foldl_cons, List.append_cons]
    exact ih hone

theorem addAll_eq (t : SCArguments) (args : List SCArgument) :
    t.addAll args = .ok ((args.map SCArgument.raw).foldl addString t) := by
  induction args generalizing t with
  | nil => rfl
  | cons arg args ih =>
    rw [addAll, List.foldlM_cons, add_eq]
    exact ih (t.addString arg.raw)

end SCArguments

structure ContractCall where
  function : Bytes
  args : SCArguments

namespace ContractCall

def new (function : Bytes) : ContractCall := ⟨function, .new⟩

def setArgs (t : ContractCall) (args : SCArguments) : ContractCall := { t with args }

def asOnData (t : ContractCall) : Bytes :=
  if t.function.isEmpty then []
  else chr '@' :: Hex.stringToHex t.function ++ t.args.asOnData

def fields (t : ContractCall) : List Bytes :=
  if t.function.isEmpty then [] else Hex.stringToHex t.function :: t.args.args

theorem asOnData_new : (new []).asOnData = [] := rfl

theorem asOnData_eq (t : ContractCall) :
    t.asOnData = t.fields.flatMap fun field => chr '@' :: field := by
  rw [asOnData, fields]
  split <;> rfl

end ContractCall

theorem IsHex.no_separator {s : Bytes} (h : IsHex s) : chr '@' ∉ s := by
  have all : ∀ n < 16, Hex.hexDigits.getD n 0 ≠ chr '@' := by decide +kernel
  obtain ⟨b, rfl⟩ := h
  intro hmem
  obtain ⟨c, -, hc⟩ := List.mem_flatMap.mp hmem
  have hlt := c.toNat_lt
  simp only [List.mem_cons, List.not_mem_nil, or_false] at hc
  rcases hc with hc | hc
  · exact all _ (by rw [Hex.toNat_high]; omega) hc.symm
  · exact all _ (by rw [Hex.toNat_low]; omega) hc.symm

def parts (data : Bytes) : List Bytes := data.splitOn (chr '@')

theorem parts_join {name : Bytes} {fields : List Bytes} (hname : chr '@' ∉ name)
    (hfields : ∀ field ∈ fields, IsHex field) :
    parts (Fields.join (chr '@') name fields) = name :: fields :=
  Fields.splitOn_join _ hname fun field hfield => (hfields field hfield).no_separator

theorem mapM_hexToString (raws : List Bytes) :
    (raws.map Hex.stringToHex).mapM Hex.hexToString = .ok raws := by
  induction raws with
  | nil => rfl
  | cons raw raws ih =>
    rw [List.map_cons, List.mapM_cons, Hex.hexToString_stringToHex, ih]
    rfl

end MxSdk
