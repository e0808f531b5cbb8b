import MxSdk.Vendor.Cxxopts

/-! The options of the commands, from inputhandler/options.cpp and
inputhandler/options_esdt.cpp, and the check of inputhandler/arghandler.cpp on what was
parsed. The words in front of the options are left out. -/

namespace MxSdk.Cli
open Cxxopts

/-- The options of `transaction new`. -/
def initOptionsTx : List OptionDetails :=
  [⟨ascii "nonce", .uint64, none⟩,
    ⟨ascii "value", .string, none⟩,
    ⟨ascii "receiver", .string, none⟩,
    ⟨ascii "receiver-name", .string, some []⟩,
    ⟨ascii "sender-name", .string, some []⟩,
    ⟨ascii "gas-price", .uint64, none⟩,
    ⟨ascii "gas-limit", .uint64, none⟩,
    ⟨ascii "data", .string, some []⟩,
    ⟨ascii "version", .uint64, some (ascii "1")⟩,
    ⟨ascii "options", .uint32, some (ascii "0")⟩,
    ⟨ascii "key", .string, none⟩,
    ⟨ascii "password", .string, some []⟩,
    ⟨ascii "outfile", .string, none⟩]

def initOptionsTransfer : List OptionDetails :=
  [⟨ascii "nonce", .uint64, none⟩,
    ⟨ascii "gas-price", .uint64, none⟩,
    ⟨ascii "gas-limit", .uint64, none⟩,
    ⟨ascii "receiver", .string, none⟩,
    ⟨ascii "token", .string, none⟩,
    ⟨ascii "value", .string, none⟩,
    ⟨ascii "function", .string, some []⟩,
    ⟨ascii "args", .strings, some []⟩,
    ⟨ascii "key", .string, none⟩,
    ⟨ascii "password", .string, some []⟩]

def checkEmptyValues (arguments : CommandLine) : Except Exception Unit :=
  arguments.forM fun arg =>
    if arg.2.isEmpty then throw (.invalidArgument (errorMsgEmptyValue ++ arg.1)) else .ok ()

def canParse (options : List OptionDetails) (line : CommandLine) :
    Except Exception ParseResult := do
  let result ← parse options line
  checkEmptyValues result.arguments
  .ok result

theorem parse_of_canParse {options : List OptionDetails} {line : CommandLine}
    {result : ParseResult} (h : canParse options line = .ok result) :
    parse options line = .ok result := by
  obtain ⟨parsed, hparsed, h⟩ := bind_eq_ok h
  obtain ⟨-, -, h⟩ := bind_eq_ok h
  rw [hparsed, Except.ok.inj h]

theorem nodup_initOptions : (initOptionsTx.map OptionDetails.longName).Nodup ∧
    (initOptionsTransfer.map OptionDetails.longName).Nodup := by decide +kernel

def textOf (line : CommandLine) (name : Bytes) : Option Bytes :=
  (line.find? fun arg => arg.1 = name).map Prod.snd

/-- The value of an option, read with its own type. -/
def given (line : CommandLine) (name : Bytes) (ty : OptionType) : Option ty.Val :=
  (textOf line name).bind fun text => (parseValue ty text).toOption

theorem mem_of_textOf {line : CommandLine} {name text : Bytes} (h : textOf line name = some text) :
    (name, text) ∈ line := by
  obtain ⟨arg, harg, rfl⟩ := Option.map_eq_some_iff.mp h
  have hname := List.find?_some harg
  rw [← of_decide_eq_true hname]
  exact List.mem_of_find?_eq_some harg

theorem notMem_of_textOf {line : CommandLine} {name : Bytes} (h : textOf line name = none) :
    name ∉ line.map Prod.fst := by
  rw [textOf, Option.map_eq_none_iff, List.find?_eq_none] at h
  intro hmem
  obtain ⟨arg, harg, rfl⟩ := List.mem_map.mp hmem
  exact h arg harg (decide_eq_true rfl)

section Results
variable {options : List OptionDetails} {line : CommandLine} {result : ParseResult}
  {name : Bytes} {ty : OptionType}

theorem type_of_find {default : Option Bytes}
    (h : find options name = some ⟨name, ty, default⟩) :
    ∀ details ∈ find options name, details.type = ty := by
  intro details hdetails
  rw [← Option.some.inj (h.symm.trans hdetails)]

theorem read_given (hoptions : (options.map OptionDetails.longName).Nodup)
    (hline : (line.map Prod.fst).Nodup) (h : parse options line = .ok result)
    (htype : ∀ details ∈ find options name, details.type = ty) {text : Bytes}
    (htext : textOf line name = some text) : ∃ value, given line name ty = some value ∧
      result.count name = 1 ∧ result.get name = .ok ⟨name, some ⟨ty, value⟩, 1, false⟩ := by
  obtain ⟨details, value, hfind, hvalue, hstore⟩ :=
    supplied hoptions hline h (mem_of_textOf htext)
  obtain rfl := htype details hfind
  obtain ⟨-, -, -, hresult, -⟩ := parse_eq_ok h
  refine ⟨value, ?_, ?_, ?_⟩
  · rw [given, htext, Option.bind_some, hvalue]
    rfl
  · rw [ParseResult.count, hresult, hfind]
    simp only [hstore]
  · rw [ParseResult.get, hresult, hfind]
    simp only [hstore]

theorem count_absent (hoptions : (options.map OptionDetails.longName).Nodup)
    (h : parse options line = .ok result) (htext : textOf line name = none) :
    result.count name = 0 := by
  obtain ⟨-, -, -, hresult, -⟩ := parse_eq_ok h
  rw [ParseResult.count, hresult]
  cases hfind : find options name with
  | none => rfl
  | some details =>
    have hfinish := absent hoptions h hfind (notMem_of_textOf htext)
    rw [OptionValue.finish] at hfinish
    simp only
    cases hdefault : details.defaultValue with
    | none =>
      simp only [hdefault, Except.ok.injEq] at hfinish
      rw [← hfinish]
      rfl
    | some text =>
      simp only [hdefault] at hfinish
      rw [if_pos ⟨rfl, rfl⟩] at hfinish
      obtain ⟨value, -, hstore⟩ := bind_eq_ok hfinish
      rw [← Except.ok.inj hstore]
      rfl

theorem getAs_default (hoptions : (options.map OptionDetails.longName).Nodup)
    (h : parse options line = .ok result) {default : Bytes}
    (hfind : find options name = some ⟨name, ty, some default⟩) (htext : textOf line name = none)
    {value : ty.Val} (hvalue : parseValue ty default = .ok value) :
    result.getAs name ty = .ok value := by
  obtain ⟨-, -, -, hresult, -⟩ := parse_eq_ok h
  have hfinish := absent hoptions h hfind (notMem_of_textOf htext)
  rw [OptionValue.finish] at hfinish
  simp only at hfinish
  rw [if_pos ⟨rfl, rfl⟩, OptionValue.parseDefault] at hfinish
  simp only [hvalue, OptionValue.new, stored_none, bind, Except.bind, Except.ok.injEq] at hfinish
  have hget : result.get name = .ok (result.values name) := by
    rw [ParseResult.get, hresult, hfind]
  rw [getAs_eq hget]
  exact as_self (by rw [← hfinish])

end Results

end MxSdk.Cli
