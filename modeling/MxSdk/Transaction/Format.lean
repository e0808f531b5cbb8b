import MxSdk.Lib.Record
import MxSdk.Transaction.Transaction

/-! The thirteen keys of a transaction as a record format. `serialize` writes what the
format shows of an object, and `deserialize` is the program that loads a document,
behind the checks for the keys that must be there. -/

namespace MxSdk
open Straightline Record

inductive TxKey where
  | nonce | value | receiver | sender | receiverName | senderName | gasPrice | gasLimit
  | data | signature | chainId | version | options
  deriving DecidableEq

namespace TxKey

def text : TxKey → Bytes
  | nonce => txNonce
  | value => txValue
  | receiver => txReceiver
  | sender => txSender
  | receiverName => txReceiverName
  | senderName => txSenderName
  | gasPrice => txGasPrice
  | gasLimit => txGasLimit
  | data => txData
  | signature => txSignature
  | chainId => txChainId
  | version => txVersion
  | options => txOptions

/-- The order of `serialize`. -/
def written : List TxKey :=
  [nonce, value, receiver, sender, receiverName, senderName, gasPrice, gasLimit, data, signature,
    chainId, version, options]

/-- The order of the assignments in `deserialize`. -/
def assigned : List TxKey :=
  [nonce, value, receiver, sender, gasPrice, gasLimit, chainId, version, data, signature,
    receiverName, senderName, options]

/-- The checks of `deserialize`. -/
def required : List (TxKey × Bytes) :=
  [(nonce, errorMsgNonce), (value, errorMsgValue), (receiver, errorMsgReceiver),
    (sender, errorMsgSender), (gasPrice, errorMsgGasPrice), (gasLimit, errorMsgGasLimit),
    (chainId, errorMsgChainId), (version, errorMsgVersion)]

def isOptional : TxKey → Bool
  | receiverName | senderName | data | signature | options => true
  | _ => false

theorem mem_written (k : TxKey) : k ∈ written := by cases k <;> decide

theorem mem_assigned (k : TxKey) : k ∈ assigned := by cases k <;> decide

theorem nodup_written : written.Nodup := by decide

theorem nodup_assigned : assigned.Nodup := by decide

theorem required_not_optional : ∀ r ∈ required, r.1.isOptional = false := by decide

theorem mem_required {k : TxKey} (h : k.isOptional = false) : ∃ r ∈ required, r.1 = k := by
  cases k with
  | nonce | value | receiver | sender | gasPrice | gasLimit | chainId | version =>
    simp [required]
  | receiverName | senderName | data | signature | options => cases h

theorem text_injective : Function.Injective text := by
  have hne : ∀ k ∈ written, ∀ k' ∈ written, k.text = k'.text → k = k' := by decide +kernel
  exact fun k k' => hne k (mem_written k) k' (mem_written k')

end TxKey

namespace Transaction

section Fields
variable {α β : Type}

/-- `json.at` where there is a value. -/
def readAt (ty : JsonType α) (key : Bytes) (v : Json) : Except Exception α :=
  match ty.get v with
  | some a => .ok a
  | none => .error (keyNotFound key)

/-- A field of type `β` that is made from a value of type `α`. -/
def made (absent : Option Exception) (ty : JsonType α) (key : Bytes)
    (make : α → Except Exception β) (text : β → α) (make_text : ∀ b, make (text b) = .ok b)
    (get : Transaction → Option β) (set : β → Transaction → Transaction)
    (get_set : ∀ b t, get (set b t) = some b) : Field Json Exception Transaction where
  Content := β
  get := get
  set := set
  put b := ty.put (text b)
  read v := readAt ty key v >>= make
  absent := absent
  get_set := get_set
  read_put b := by
    rw [readAt, ty.get_put]
    exact make_text b

def mandatory (ty : JsonType α) (key : Bytes) (get : Transaction → α)
    (set : α → Transaction → Transaction) (get_set : ∀ a t, get (set a t) = a) :
    Field Json Exception Transaction :=
  made (some (keyNotFound key)) ty key .ok id (fun _ => rfl) (fun t => some (get t)) set
    fun a t => congrArg some (get_set a t)

def optional (ty : JsonType α) (key : Bytes) (get : Transaction → Option α)
    (set : α → Transaction → Transaction) (get_set : ∀ a t, get (set a t) = some a) :
    Field Json Exception Transaction :=
  made none ty key .ok id (fun _ => rfl) get set get_set

theorem at_eq (json : OrderedJson) (ty : JsonType α) (key : Bytes) :
    json.at ty key = (json.find key).elim (.error (keyNotFound key)) (readAt ty key) := by
  rw [OrderedJson.at]
  cases json.find key with
  | none => rfl
  | some v => rw [Option.bind_some, Option.elim_some, readAt]; cases ty.get v <;> rfl

variable {ty : JsonType α} {key : Bytes} {make : α → Except Exception β} {text : β → α}
  {make_text : ∀ b, make (text b) = .ok b} (json : OrderedJson)

theorem load_made {get : Transaction → Option β} {set : β → Transaction → Transaction}
    {get_set : ∀ b t, get (set b t) = some b} :
    (made (some (keyNotFound key)) ty key make text make_text get set get_set).load
      (json.find key) = store (json.at ty key >>= make) set := by
  rw [at_eq]
  cases json.find key <;> rfl

theorem load_mandatory {get : Transaction → α} {set : α → Transaction → Transaction}
    {get_set : ∀ a t, get (set a t) = a} :
    (mandatory ty key get set get_set).load (json.find key) = store (json.at ty key) set := by
  rw [mandatory, load_made]
  cases json.at ty key <;> rfl

theorem load_optional {get : Transaction → Option α} {set : α → Transaction → Transaction}
    {get_set : ∀ a t, get (set a t) = some a} :
    (optional ty key get set get_set).load (json.find key) =
      getJsonValueIfNotNull json ty key set := by
  rw [getJsonValueIfNotNull, OrderedJson.contains, at_eq]
  cases json.find key with
  | none => rfl
  | some v =>
    rw [Option.elim_some, optional, Field.load]
    change ((readAt ty key v >>= Except.ok).map set) = (readAt ty key v).map set
    cases readAt ty key v <;> rfl

theorem throws_made {absent : Option Exception} {get : Transaction → Option β}
    {set : β → Transaction → Transaction} {get_set : ∀ b t, get (set b t) = some b}
    (habsent : ∀ e ∈ absent, e = keyNotFound key)
    (hmake : ∀ a e, make a = .error e → e.IsInvalidArgument) :
    (made absent ty key make text make_text get set get_set).Throws
      Exception.IsInvalidArgument := by
  refine ⟨fun e he => habsent e he ▸ trivial, fun v e he => ?_⟩
  change (readAt ty key v >>= make) = .error e at he
  rw [readAt] at he
  cases hget : ty.get v with
  | none =>
    rw [hget] at he
    cases he
    trivial
  | some a =>
    rw [hget] at he
    exact hmake a e he

theorem throws_mandatory {get : Transaction → α} {set : α → Transaction → Transaction}
    {get_set : ∀ a t, get (set a t) = a} :
    (mandatory ty key get set get_set).Throws Exception.IsInvalidArgument :=
  throws_made (fun _ he => (Option.some.inj he).symm) nofun

theorem throws_optional {get : Transaction → Option α} {set : α → Transaction → Transaction}
    {get_set : ∀ a t, get (set a t) = some a} :
    (optional ty key get set get_set).Throws Exception.IsInvalidArgument :=
  throws_made nofun nofun

end Fields

section Platform
variable [Platform]

def field : TxKey → Field Json Exception Transaction
  | .nonce => mandatory .uint64 txNonce nonce (fun nonce t => { t with nonce }) fun _ _ => rfl
  | .value => made (some (keyNotFound txValue)) .string txValue BigUInt.ofString BigUInt.value
      BigUInt.ofString_value (fun t => some t.value) (fun value t => { t with value }) fun _ _ => rfl
  | .receiver => made (some (keyNotFound txReceiver)) .string txReceiver Address.ofBech32Address
      Address.bech32Address Address.ofBech32Address_text receiver
      (fun receiver t => { t with receiver := some receiver }) fun _ _ => rfl
  | .sender => made (some (keyNotFound txSender)) .string txSender Address.ofBech32Address
      Address.bech32Address Address.ofBech32Address_text sender
      (fun sender t => { t with sender := some sender }) fun _ _ => rfl
  | .receiverName => optional .bytes txReceiverName receiverUserName
      (fun name t => { t with receiverUserName := some name }) fun _ _ => rfl
  | .senderName => optional .bytes txSenderName senderUserName
      (fun name t => { t with senderUserName := some name }) fun _ _ => rfl
  | .gasPrice => mandatory .uint64 txGasPrice gasPrice (fun gasPrice t => { t with gasPrice })
      fun _ _ => rfl
  | .gasLimit => mandatory .uint64 txGasLimit gasLimit (fun gasLimit t => { t with gasLimit })
      fun _ _ => rfl
  | .data => optional .bytes txData data (fun data t => { t with data := some data }) fun _ _ => rfl
  | .signature => optional .string txSignature signature
      (fun signature t => { t with signature := some signature }) fun _ _ => rfl
  | .chainId => mandatory .string txChainId chainId (fun chainId t => { t with chainId })
      fun _ _ => rfl
  | .version => mandatory .uint64 txVersion version (fun version t => { t with version })
      fun _ _ => rfl
  | .options => optional .uint32 txOptions options
      (fun options t => { t with options := some options }) fun _ _ => rfl

theorem ext_get {t t' : Transaction} (h : ∀ k, (field k).get t = (field k).get t') : t = t' := by
  cases t
  cases t'
  simp only [mk.injEq]
  exact ⟨Option.some.inj (h .nonce), Option.some.inj (h .value), h .receiver, h .sender,
    h .receiverName, h .senderName, Option.some.inj (h .gasPrice), Option.some.inj (h .gasLimit),
    h .data, h .signature, Option.some.inj (h .chainId), Option.some.inj (h .version), h .options⟩

def format : Format TxKey Json Exception Transaction where
  field := field
  get_set_of_ne := by
    intro k k' h c t
    cases k <;> cases k' <;> first | exact absurd rfl h | rfl
  ext := ext_get

theorem throws_field (k : TxKey) : (field k).Throws Exception.IsInvalidArgument := by
  cases k with
  | value =>
    rw [field]
    exact throws_made (fun _ he => (Option.some.inj he).symm) fun _ _ => BigUInt.ofString_error
  | receiver | sender =>
    rw [field]
    exact throws_made (fun _ he => (Option.some.inj he).symm) fun _ _ => Address.ofBech32Address_error
  | nonce | gasPrice | gasLimit | chainId | version =>
    rw [field]
    exact throws_mandatory
  | receiverName | senderName | data | signature | options =>
    rw [field]
    exact throws_optional

theorem absent_eq_none_iff {k : TxKey} : (field k).absent = none ↔ k.isOptional = true := by
  have hnone : (field k).absent.isNone = k.isOptional := by cases k <;> rfl
  rw [← hnone, Option.isNone_iff_eq_none]

end Platform

end Transaction

end MxSdk
