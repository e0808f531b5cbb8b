import MxSdk.Cli.Options
import MxSdk.Transaction.Transaction

/-! inputhandler/wrappers/transaction_input_wrapper.cpp, which reads the fields of a
transaction from the options, and `createTransaction` of cli_utility.cpp. -/

namespace MxSdk.Cli
open Cxxopts

/-- `getUserInputIfExists<T>`. It reads a `uint64_t` for every `T`. -/
def getUserInputIfExists {T : Type} (makeShared : UInt64 → T) (userInputs : ParseResult)
    (arg : Bytes) : Except Exception (Option T) := do
  if userInputs.count arg ≠ 0 then
    let input ← userInputs.getAs arg .uint64
    .ok (some (makeShared input))
  else .ok none

/-- `getUserInputIfExists<bytes>`. -/
def getUserInputIfExistsBytes (userInputs : ParseResult) (arg : Bytes) :
    Except Exception (Option Bytes) := do
  if userInputs.count arg ≠ 0 then
    let userInput ← userInputs.getAs arg .string
    .ok (some userInput)
  else .ok none

def getUserInputOrDefault (ty : OptionType) (userInputs : ParseResult) (value : Bytes)
    (defaultValue : ty.Val) : Except Exception ty.Val :=
  if userInputs.count value ≠ 0 then userInputs.getAs value ty else .ok defaultValue

structure TransactionInputWrapper where
  inputData : ParseResult

namespace TransactionInputWrapper

def getNonce (t : TransactionInputWrapper) : Except Exception UInt64 :=
  getUserInputOrDefault .uint64 t.inputData (ascii "nonce") Transaction.default.nonce

def getValue (t : TransactionInputWrapper) : Except Exception BigUInt := do
  BigUInt.ofString (← getUserInputOrDefault .string t.inputData (ascii "value")
    Transaction.default.value.value)

def getReceiver (t : TransactionInputWrapper) : Except Exception (Option Address) := do
  if t.inputData.count (ascii "receiver") ≠ 0 then
    let bech32Address ← t.inputData.getAs (ascii "receiver") .string
    let receiver ← Address.ofBech32Address bech32Address
    .ok (some receiver)
  else .ok Transaction.default.receiver

def getReceiverName (t : TransactionInputWrapper) : Except Exception (Option Bytes) :=
  getUserInputIfExistsBytes t.inputData (ascii "receiver-name")

def getSenderName (t : TransactionInputWrapper) : Except Exception (Option Bytes) :=
  getUserInputIfExistsBytes t.inputData (ascii "sender-name")

def getGasPrice (t : TransactionInputWrapper) : Except Exception UInt64 :=
  getUserInputOrDefault .uint64 t.inputData (ascii "gas-price") Transaction.default.gasPrice

def getGasLimit (t : TransactionInputWrapper) : Except Exception UInt64 :=
  getUserInputOrDefault .uint64 t.inputData (ascii "gas-limit") Transaction.default.gasLimit

def getData (t : TransactionInputWrapper) : Except Exception (Option Bytes) :=
  getUserInputIfExistsBytes t.inputData (ascii "data")

def getVersion (t : TransactionInputWrapper) : Except Exception UInt64 :=
  getUserInputOrDefault .uint64 t.inputData (ascii "version") Transaction.default.version

def getOptions (t : TransactionInputWrapper) : Except Exception (Option UInt32) :=
  getUserInputIfExists UInt64.toUInt32 t.inputData (ascii "options")

end TransactionInputWrapper

/-- config/cliconfig.h -/
structure Config where
  chainID : Bytes
  proxyUrl : Bytes

def createTransaction (result : ParseResult) (config : Config) : Except Exception Transaction := do
  let txWrapper : TransactionInputWrapper := ⟨result⟩
  let nonce ← txWrapper.getNonce
  let value ← txWrapper.getValue
  let receiver ← txWrapper.getReceiver
  let sender := Transaction.default.sender
  let receiverUserName ← txWrapper.getReceiverName
  let senderUserName ← txWrapper.getSenderName
  let gasPrice ← txWrapper.getGasPrice
  let gasLimit ← txWrapper.getGasLimit
  let data ← txWrapper.getData
  let signature := Transaction.default.signature
  let chainId := config.chainID
  let version ← txWrapper.getVersion
  let options ← txWrapper.getOptions
  .ok { nonce, value, receiver, sender, receiverUserName, senderUserName, gasPrice, gasLimit,
        data, signature, chainId, version, options }

/-- A command line that a table accepts, each option at most once. -/
structure Accepted (options : List OptionDetails) (line : CommandLine) (result : ParseResult) :
    Prop where
  names : (options.map OptionDetails.longName).Nodup
  once : (line.map Prod.fst).Nodup
  parsed : canParse options line = .ok result

section Getters
variable {options : List OptionDetails} {line : CommandLine} {result : ParseResult}
  {name : Bytes} {ty : OptionType}

theorem getAs_given (h : Accepted options line result)
    (htype : ∀ details ∈ find options name, details.type = ty) {text : Bytes}
    (htext : textOf line name = some text) : ∃ value, given line name ty = some value ∧
      result.count name = 1 ∧ result.getAs name ty = .ok value := by
  obtain ⟨value, hgiven, hcount, hget⟩ :=
    read_given h.names h.once (parse_of_canParse h.parsed) htype htext
  refine ⟨value, hgiven, hcount, ?_⟩
  rw [getAs_eq hget]
  exact as_self rfl

theorem absent_of_find (h : Accepted options line result) (hfind : find options name = none) :
    textOf line name = none := by
  cases htext : textOf line name with
  | none => rfl
  | some text =>
    obtain ⟨details, -, hdetails, -⟩ :=
      supplied h.names h.once (parse_of_canParse h.parsed) (mem_of_textOf htext)
    rw [hfind] at hdetails
    cases hdetails

theorem given_absent (htext : textOf line name = none) : given line name ty = none := by
  rw [given, htext]
  rfl

theorem given_string {text : Bytes} (htext : textOf line name = some text) :
    given line name .string = some text := by
  rw [given, htext]
  rfl

theorem getUserInputOrDefault_eq (h : Accepted options line result)
    (htype : ∀ details ∈ find options name, details.type = ty) (defaultValue : ty.Val) :
    getUserInputOrDefault ty result name defaultValue =
      .ok ((given line name ty).getD defaultValue) := by
  cases htext : textOf line name with
  | none =>
    rw [getUserInputOrDefault, count_absent h.names (parse_of_canParse h.parsed) htext,
      given_absent htext]
    rfl
  | some text =>
    obtain ⟨value, hgiven, hcount, hget⟩ := getAs_given h htype htext
    rw [getUserInputOrDefault, hcount, hget, hgiven]
    rfl

theorem getUserInputIfExistsBytes_eq (h : Accepted options line result)
    (htype : ∀ details ∈ find options name, details.type = .string) :
    getUserInputIfExistsBytes result name = .ok (given line name .string) := by
  cases htext : textOf line name with
  | none =>
    rw [getUserInputIfExistsBytes, count_absent h.names (parse_of_canParse h.parsed) htext,
      given_absent htext]
    rfl
  | some text =>
    obtain ⟨value, hgiven, hcount, hget⟩ := getAs_given h htype htext
    rw [getUserInputIfExistsBytes, hcount, hget, hgiven]
    rfl

theorem getUserInputIfExists_absent {T : Type} {makeShared : UInt64 → T}
    (h : Accepted options line result) (htext : textOf line name = none) :
    getUserInputIfExists makeShared result name = .ok none := by
  rw [getUserInputIfExists, count_absent h.names (parse_of_canParse h.parsed) htext]
  rfl

/-- A number that was declared with another type than `uint64_t` is not read. -/
theorem getUserInputIfExists_other {T : Type} {makeShared : UInt64 → T}
    (h : Accepted options line result)
    (htype : ∀ details ∈ find options name, details.type = ty) (hne : ty ≠ .uint64) {text : Bytes}
    (htext : textOf line name = some text) :
    getUserInputIfExists makeShared result name = .error .badCast := by
  obtain ⟨value, -, hcount, hget⟩ :=
    read_given h.names h.once (parse_of_canParse h.parsed) htype htext
  have has : result.getAs name .uint64 = .error .badCast := by
    rw [getAs_eq hget]
    exact as_other rfl hne
  rw [getUserInputIfExists, hcount, has]
  rfl

end Getters

structure Carries (line : CommandLine) (config : Config) (tx : Transaction) : Prop where
  nonce : tx.nonce = (given line (ascii "nonce") .uint64).getD 0
  value : BigUInt.ofString ((given line (ascii "value") .string).getD (ascii "0")) = .ok tx.value
  receiver : (given line (ascii "receiver") .string).map Address.ofBech32Address =
    tx.receiver.map .ok
  sender : tx.sender = none
  receiverUserName : tx.receiverUserName = given line (ascii "receiver-name") .string
  senderUserName : tx.senderUserName = given line (ascii "sender-name") .string
  gasPrice : tx.gasPrice = (given line (ascii "gas-price") .uint64).getD 0
  gasLimit : tx.gasLimit = (given line (ascii "gas-limit") .uint64).getD 0
  data : tx.data = given line (ascii "data") .string
  signature : tx.signature = none
  chainId : tx.chainId = config.chainID
  version : tx.version = (given line (ascii "version") .uint64).getD 1
  options : tx.options = given line (ascii "options") .uint32

/-- The types that the getters expect; an option may be missing from the table. -/
def declaredTypes : List (Bytes × OptionType) :=
  [(ascii "nonce", .uint64), (ascii "value", .string), (ascii "receiver", .string),
    (ascii "receiver-name", .string), (ascii "sender-name", .string), (ascii "gas-price", .uint64),
    (ascii "gas-limit", .uint64), (ascii "data", .string), (ascii "version", .uint64)]

def Declares (options : List OptionDetails) : Prop :=
  ∀ entry ∈ declaredTypes, ∀ details ∈ find options entry.1, details.type = entry.2

theorem declares_initOptions : Declares initOptionsTx ∧ Declares initOptionsTransfer := by
  unfold Declares
  decide +kernel

section Creation
variable {options : List OptionDetails} {line : CommandLine} {result : ParseResult}

theorem getValue_eq (h : Accepted options line result) (htypes : Declares options) {value : BigUInt}
    (hvalue : BigUInt.ofString ((given line (ascii "value") .string).getD (ascii "0")) =
      .ok value) : (TransactionInputWrapper.mk result).getValue = .ok value := by
  have hget := getUserInputOrDefault_eq h (htypes (ascii "value", .string) (by decide +kernel))
    (ascii "0")
  rw [TransactionInputWrapper.getValue, show Transaction.default.value.value = ascii "0" by
    decide +kernel]
  simp only [hget, bind, Except.bind, hvalue]

theorem getReceiver_eq (h : Accepted options line result) (htypes : Declares options)
    {receiver : Option Address}
    (hreceiver : (given line (ascii "receiver") .string).map Address.ofBech32Address =
      receiver.map .ok) : (TransactionInputWrapper.mk result).getReceiver = .ok receiver := by
  have htype := htypes (ascii "receiver", .string) (by decide +kernel)
  cases htext : textOf line (ascii "receiver") with
  | none =>
    rw [given_absent htext] at hreceiver
    have hnone : receiver = none := by
      cases receiver with
      | none => rfl
      | some a => cases hreceiver
    rw [TransactionInputWrapper.getReceiver,
      count_absent h.names (parse_of_canParse h.parsed) htext, hnone]
    rfl
  | some text =>
    obtain ⟨value, hgiven, hcount, hget⟩ := getAs_given h htype htext
    rw [hgiven] at hreceiver
    cases receiver with
    | none => cases hreceiver
    | some a =>
      have haddress : Address.ofBech32Address value = .ok a := Option.some.inj hreceiver
      rw [TransactionInputWrapper.getReceiver, hcount]
      simp only [hget, bind, Except.bind, haddress]
      rfl

theorem createTransaction_ok (h : Accepted options line result) (htypes : Declares options)
    {value : BigUInt}
    (hvalue : BigUInt.ofString ((given line (ascii "value") .string).getD (ascii "0")) =
      .ok value) {receiver : Option Address}
    (hreceiver : (given line (ascii "receiver") .string).map Address.ofBech32Address =
      receiver.map .ok) (hoptions : textOf line (ascii "options") = none) (config : Config) :
    ∃ tx, createTransaction result config = .ok tx ∧ Carries line config tx ∧
      tx.value = value ∧ tx.receiver = receiver := by
  have number (name : Bytes) (hname : (name, OptionType.uint64) ∈ declaredTypes)
      (n : UInt64) : getUserInputOrDefault .uint64 result name n =
        .ok ((given line name .uint64).getD n) :=
    getUserInputOrDefault_eq h (htypes _ hname) n
  have text (name : Bytes) (hname : (name, OptionType.string) ∈ declaredTypes) :
      getUserInputIfExistsBytes result name = .ok (given line name .string) :=
    getUserInputIfExistsBytes_eq h (htypes _ hname)
  simp only [createTransaction, getValue_eq h htypes hvalue, getReceiver_eq h htypes hreceiver,
    TransactionInputWrapper.getNonce, TransactionInputWrapper.getReceiverName,
    TransactionInputWrapper.getSenderName, TransactionInputWrapper.getGasPrice,
    TransactionInputWrapper.getGasLimit, TransactionInputWrapper.getData,
    TransactionInputWrapper.getVersion, TransactionInputWrapper.getOptions,
    number (ascii "nonce") (by decide +kernel), number (ascii "gas-price") (by decide +kernel),
    number (ascii "gas-limit") (by decide +kernel), number (ascii "version") (by decide +kernel),
    text (ascii "receiver-name") (by decide +kernel),
    text (ascii "sender-name") (by decide +kernel), text (ascii "data") (by decide +kernel),
    getUserInputIfExists_absent h hoptions, bind, Except.bind]
  refine ⟨_, rfl, ?_, rfl, rfl⟩
  exact
    { nonce := rfl, value := hvalue, receiver := hreceiver, sender := rfl, receiverUserName := rfl,
      senderUserName := rfl, gasPrice := rfl, gasLimit := rfl, data := rfl, signature := rfl,
      chainId := rfl, version := rfl, options := by rw [given_absent hoptions] }

theorem exists_value (h : ∀ text, textOf line (ascii "value") = some text →
    ∃ value, BigUInt.ofString text = .ok value) : ∃ value, BigUInt.ofString
      ((given line (ascii "value") .string).getD (ascii "0")) = .ok value := by
  cases htext : textOf line (ascii "value") with
  | none => exact ⟨Transaction.default.value, by rw [given_absent htext]; decide +kernel⟩
  | some text =>
    obtain ⟨value, hvalue⟩ := h text htext
    exact ⟨value, by rw [given_string htext]; exact hvalue⟩

theorem exists_receiver (h : ∀ text, textOf line (ascii "receiver") = some text →
    ∃ receiver, Address.ofBech32Address text = .ok receiver) : ∃ receiver : Option Address,
      (given line (ascii "receiver") .string).map Address.ofBech32Address = receiver.map .ok := by
  cases htext : textOf line (ascii "receiver") with
  | none => exact ⟨none, by rw [given_absent htext]; rfl⟩
  | some text =>
    obtain ⟨receiver, hreceiver⟩ := h text htext
    exact ⟨some receiver, by rw [given_string htext]; exact congrArg some hreceiver⟩

end Creation

theorem createTransaction_options {options : List OptionDetails} {line : CommandLine}
    {result : ParseResult} (h : Accepted options line result)
    (htype : ∀ details ∈ find options (ascii "options"), details.type = .uint32) {text : Bytes}
    (htext : textOf line (ascii "options") = some text) (config : Config) (tx : Transaction) :
    createTransaction result config ≠ .ok tx := by
  intro htx
  rw [createTransaction] at htx
  obtain ⟨nonce, -, htx⟩ := bind_eq_ok htx
  obtain ⟨value, -, htx⟩ := bind_eq_ok htx
  obtain ⟨receiver, -, htx⟩ := bind_eq_ok htx
  obtain ⟨receiverUserName, -, htx⟩ := bind_eq_ok htx
  obtain ⟨senderUserName, -, htx⟩ := bind_eq_ok htx
  obtain ⟨gasPrice, -, htx⟩ := bind_eq_ok htx
  obtain ⟨gasLimit, -, htx⟩ := bind_eq_ok htx
  obtain ⟨data, -, htx⟩ := bind_eq_ok htx
  obtain ⟨version, -, htx⟩ := bind_eq_ok htx
  obtain ⟨flags, hflags, -⟩ := bind_eq_ok htx
  rw [TransactionInputWrapper.getOptions,
    getUserInputIfExists_other h htype (by decide) htext] at hflags
  cases hflags

/-- Every field reaches the transaction exactly where `--options` is not on the line. -/
theorem createTransaction_carries_iff {line : CommandLine} {result : ParseResult} (config : Config)
    (hline : (line.map Prod.fst).Nodup) (hparse : canParse initOptionsTx line = .ok result)
    (hvalue : ∀ text, textOf line (ascii "value") = some text →
      ∃ value, BigUInt.ofString text = .ok value)
    (hreceiver : ∀ text, textOf line (ascii "receiver") = some text →
      ∃ receiver, Address.ofBech32Address text = .ok receiver) :
    (∃ tx, createTransaction result config = .ok tx ∧ Carries line config tx) ↔
      ascii "options" ∉ line.map Prod.fst := by
  have haccepted : Accepted initOptionsTx line result := ⟨nodup_initOptions.1, hline, hparse⟩
  cases htext : textOf line (ascii "options") with
  | none =>
    obtain ⟨value, hvalue⟩ := exists_value hvalue
    obtain ⟨receiver, hreceiver⟩ := exists_receiver hreceiver
    obtain ⟨tx, htx, hcarries, -⟩ := createTransaction_ok haccepted declares_initOptions.1 hvalue
      hreceiver htext config
    exact iff_of_true ⟨tx, htx, hcarries⟩ (notMem_of_textOf htext)
  | some text =>
    have htype : ∀ details ∈ find initOptionsTx (ascii "options"), details.type = .uint32 := by
      decide +kernel
    refine iff_of_false ?_ (not_not.mpr (List.mem_map_of_mem (mem_of_textOf htext)))
    rintro ⟨tx, htx, -⟩
    exact createTransaction_options haccepted htype htext config tx htx

def plainLine : CommandLine :=
  [(ascii "nonce", ascii "7"), (ascii "value", ascii "1000000000000000000"),
    (ascii "receiver", ascii "erd1qqqqqqqqqqqqqqqpqqqqqqqqqqqqqqqqqqqqqqqqqqqqqqqzllls8a5w6u"),
    (ascii "data", ascii "hello"), (ascii "version", ascii "2")]

theorem createTransaction_carries_plain : ∃ result tx,
    canParse initOptionsTx plainLine = .ok result ∧
      createTransaction result ⟨ascii "T", []⟩ = .ok tx ∧
      Carries plainLine ⟨ascii "T", []⟩ tx := by
  obtain ⟨result, hresult⟩ := exists_ok
    (show (canParse initOptionsTx plainLine).isOk = true by decide +kernel)
  have hvalue : textOf plainLine (ascii "value") = some (ascii "1000000000000000000") := by
    decide +kernel
  have hreceiver : textOf plainLine (ascii "receiver") =
      some (ascii "erd1qqqqqqqqqqqqqqqpqqqqqqqqqqqqqqqqqqqqqqqqqqqqqqqzllls8a5w6u") := by
    decide +kernel
  obtain ⟨tx, htx, hcarries⟩ := (createTransaction_carries_iff ⟨ascii "T", []⟩
    (by decide +kernel) hresult
    (fun text htext => exists_ok (by
      rw [← Option.some.inj (hvalue.symm.trans htext)]
      decide +kernel))
    (fun text htext => exists_ok (by
      rw [← Option.some.inj (hreceiver.symm.trans htext)]
      decide +kernel))).mpr (by decide +kernel)
  exact ⟨result, tx, hresult, htx, hcarries⟩

theorem createTransaction_carries_fails : ¬ ∀ (line : CommandLine) (result : ParseResult)
    (config : Config), (line.map Prod.fst).Nodup → canParse initOptionsTx line = .ok result →
    (∀ text, textOf line (ascii "value") = some text →
      ∃ value, BigUInt.ofString text = .ok value) →
    (∀ text, textOf line (ascii "receiver") = some text →
      ∃ receiver, Address.ofBech32Address text = .ok receiver) →
    ∃ tx, createTransaction result config = .ok tx ∧ Carries line config tx := by
  intro h
  have hone : textOf [(ascii "options", ascii "1")] (ascii "options") = some (ascii "1") := by
    decide +kernel
  have hvalue : textOf [(ascii "options", ascii "1")] (ascii "value") = none := by decide +kernel
  have hreceiver : textOf [(ascii "options", ascii "1")] (ascii "receiver") = none := by
    decide +kernel
  obtain ⟨result, hresult⟩ := exists_ok
    (show (canParse initOptionsTx [(ascii "options", ascii "1")]).isOk = true by decide +kernel)
  obtain ⟨tx, htx, -⟩ := h [(ascii "options", ascii "1")] result ⟨ascii "T", []⟩
    (by decide +kernel) hresult (fun text htext => by rw [hvalue] at htext; cases htext)
    (fun text htext => by rw [hreceiver] at htext; cases htext)
  exact createTransaction_options ⟨nodup_initOptions.1, by decide +kernel, hresult⟩
    (by decide +kernel) hone _ tx htx

end MxSdk.Cli
