import Mathlib.Algebra.Group.Int.Defs
import Mathlib.Algebra.Group.Nat.Defs
import Mathlib.Data.Rat.Defs

/-! Byte strings and the exceptions the SDK throws. A `std::string` is its list of
bytes, and so is the `bytes` vector of internal.h. -/

namespace MxSdk

abbrev Bytes := List UInt8

abbrev chr (c : Char) : UInt8 := UInt8.ofNat c.toNat

def ascii (s : String) : Bytes := s.toList.map chr

inductive Exception where
  | invalidArgument (what : Bytes)
  | lengthError (what : Bytes)
  | runtimeError (what : Bytes)
  | domainError (what : Bytes)
  | outOfRange (what : Bytes)
  | badCast
  /-- `nlohmann::detail::type_error` with its id. -/
  | typeError (id : Nat) (what : Bytes)
  | optionException (what : Bytes)
  /-- Not an exception: memory was accessed where there is none, through a null pointer or past
  the end of a buffer or of the stack, which C++ leaves undefined. -/
  | invalidAccess
  deriving DecidableEq

def Exception.IsInvalidArgument : Exception → Prop
  | .invalidArgument _ => True
  | _ => False

/-- What is left open of the platform: the result of a `static_cast` from a double
out of the range of the target, which C++ leaves undefined, the digits the
vendored float printer chooses for a sign and a magnitude, and which of two operands of
a call is evaluated first. -/
class Platform where
  castUInt64 : ℚ → UInt64
  castUInt32 : ℚ → UInt32
  toChars : Bool → ℚ → Bytes
  secondFirst (call : Bytes) : Bool

/-- A platform for runs that leave nothing open. -/
@[reducible] def Platform.arbitrary : Platform := ⟨fun _ => 0, fun _ => 0, fun _ _ => [], fun _ => false⟩

theorem bind_eq_ok {ε α β : Type} {x : Except ε α} {f : α → Except ε β} {b : β}
    (h : (x >>= f) = .ok b) : ∃ a, x = .ok a ∧ f a = .ok b := by
  cases x with
  | error e => cases h
  | ok a => exact ⟨a, rfl, h⟩

theorem bind_eq_error_iff {ε α β : Type} {x : Except ε α} {f : α → Except ε β} {e : ε} :
    (x >>= f) = .error e ↔ x = .error e ∨ ∃ a, x = .ok a ∧ f a = .error e := by
  cases x with
  | error e' =>
    constructor
    · exact fun h => .inl (congrArg Except.error (Except.error.inj h))
    · rintro (h | ⟨_, h, _⟩)
      · exact congrArg Except.error (Except.error.inj h)
      · cases h
  | ok a =>
    constructor
    · exact fun h => .inr ⟨a, rfl, h⟩
    · rintro (h | ⟨_, ha, h⟩)
      · cases h
      · rw [Except.ok.inj ha]
        exact h

theorem bind_eq_error {ε α β : Type} {x : Except ε α} {f : α → Except ε β} {e : ε}
    (h : (x >>= f) = .error e) : x = .error e ∨ ∃ a, x = .ok a ∧ f a = .error e :=
  bind_eq_error_iff.mp h

theorem map_eq_ok {ε α β : Type} {x : Except ε α} {f : α → β} {b : β} (h : x.map f = .ok b) :
    ∃ a, x = .ok a ∧ f a = b := by
  cases x with
  | error e => cases h
  | ok a => exact ⟨a, rfl, Except.ok.inj h⟩

theorem exists_ok {ε α : Type} {x : Except ε α} (h : x.isOk = true) : ∃ a, x = .ok a := by
  cases x with
  | error e => cases h
  | ok a => exact ⟨a, rfl⟩

theorem exists_error {ε α : Type} {x : Except ε α} (h : x.toOption = none) : ∃ e, x = .error e := by
  cases x with
  | error e => exact ⟨e, rfl⟩
  | ok a => cases h

/-- Two operands of a call. -/
def Platform.both [Platform] {ε α β : Type} (call : Bytes) (x : Except ε α) (y : Except ε β) :
    Except ε (α × β) :=
  if secondFirst call then do
    let b ← y
    .ok (← x, b)
  else do
    let a ← x
    .ok (a, ← y)

theorem Platform.both_ok_iff [Platform] {ε α β : Type} {call : Bytes} {x : Except ε α}
    {y : Except ε β} {a : α} {b : β} : both call x y = .ok (a, b) ↔ x = .ok a ∧ y = .ok b := by
  rw [both]
  cases x <;> cases y <;> split <;> simp [bind, Except.bind]

theorem Platform.both_error_iff [Platform] {ε α β : Type} {call : Bytes} {x : Except ε α}
    {y : Except ε β} {e : ε} : both call x y = .error e ↔
      (x = .error e ∧ ((∃ b, y = .ok b) ∨ secondFirst call = false)) ∨
        (y = .error e ∧ ((∃ a, x = .ok a) ∨ secondFirst call = true)) := by
  rw [both]
  cases x <;> cases y <;> split <;> simp_all [bind, Except.bind]

theorem forall_byte {P : UInt8 → Prop} [DecidablePred P]
    (h : (List.range 256).all (fun n => P (UInt8.ofNat n)) = true) (b : UInt8) : P b := by
  have hb := List.all_eq_true.mp h b.toNat (List.mem_range.mpr b.toNat_lt)
  rwa [UInt8.ofNat_toNat, decide_eq_true_eq] at hb

/-! errors.h -/

def errorMsgNonce : Bytes := ascii "Invalid nonce."
def errorMsgValue : Bytes := ascii "Invalid value: "
def errorMsgReceiver : Bytes := ascii "Invalid receiver."
def errorMsgSender : Bytes := ascii "Invalid sender."
def errorMsgGasPrice : Bytes := ascii "Invalid gas price."
def errorMsgGasLimit : Bytes := ascii "Invalid gas limit."
def errorMsgChainId : Bytes := ascii "Invalid chain id."
def errorMsgVersion : Bytes := ascii "Invalid version."
def errorMsgSignature : Bytes := ascii "Missing signature."
def errorMsgBech32 : Bytes := ascii "Invalid bech32 address."
def errorMsgHex : Bytes := ascii "Invalid hex digit format."
def errorMsgConvertBits : Bytes := ascii "Cannot convert bits"
def errorMsgKeyBytesSize : Bytes := ascii "Key bytes size invalid."
def errorMsgJsonSerialized : Bytes := ascii "Invalid serialized json string: "
def errorMsgJsonSerializeEmpty : Bytes := ascii "Empty json."
def errorMsgJsonKeyNotFound : Bytes := ascii "Json does not contain key: "
def errorMsgJsonSet : Bytes := ascii "Json can not insert key:  "
def errorMsgHttpRequestFailed : Bytes := ascii "Request failed with message: "
def errorMsgReason : Bytes := ascii "Error reason: "
def errorMsgNegativeValue : Bytes := ascii "Received negative value"
def errorMsgEmptyValue : Bytes := ascii "Empty value: "
def errorMsgFileEmpty : Bytes := ascii "File is empty."
def errorMsgFileDoesNotExist : Bytes := ascii "File does not exists: "
def errorMsgFileExtensionInvalid : Bytes := ascii "File extension invalid."
def errorMsgKeyFile : Bytes := ascii "Invalid keyfile."
def errorMsgMac : Bytes := ascii "MAC mismatch, possibly wrong password."
def errorMsgScryptsy : Bytes := ascii
  "Scrypt function failed. Could not derive keys, possible cause: operating system refused to allocate the amount of requested memory."
def errorMsgKeyFileVersion : Bytes := ascii "Key file version not supported."
def errorMsgKeyFileDerivationFunction : Bytes :=
  ascii "Key file derivation function not supported."
def errorMsgKeyFileCipher : Bytes := ascii "Key file cipher algorithm not supported."
def errorMsgMissingPassword : Bytes := ascii "Missing key file password."
def errorMsgCannotConvertToBase : Bytes := ascii "Cannot convert number to base: "

end MxSdk
