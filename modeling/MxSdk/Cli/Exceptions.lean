import MxSdk.Cli.Runs
import MxSdk.Lib.Raises

/-! What ends in an exception where it fails. -/

namespace MxSdk

/-- What a `catch` of `std::exception` catches. -/
def Exception.Caught (e : Exception) : Prop := e ≠ .invalidAccess

abbrev Catchable {α : Type} (x : Except Exception α) : Prop := Raises Exception.Caught x

abbrev Crashes {α : Type} (x : Except Exception α) : Prop := x = .error .invalidAccess

theorem Catchable.not_crashes {α : Type} {x : Except Exception α} (h : Catchable x) :
    ¬ Crashes x := fun hcrash => h _ hcrash rfl

theorem Catchable.crashes_bind_iff {α β : Type} {x : Except Exception α}
    {f : α → Except Exception β} (h : Catchable x) :
    Crashes (x >>= f) ↔ ∃ a, x = .ok a ∧ Crashes (f a) :=
  bind_eq_error_iff.trans (or_iff_right h.not_crashes)

theorem crashes_map_iff {α β : Type} {x : Except Exception α} {f : α → β} :
    Crashes (x.map f) ↔ Crashes x := by
  cases x with
  | error e => simp only [Crashes, Except.map, Except.error.injEq]
  | ok a => simp only [Crashes, Except.map, reduceCtorEq]

theorem crashes_both_bind_iff [Platform] {α β γ : Type} {call : Bytes} {x : Except Exception α}
    {y : Except Exception β} {f : α × β → Except Exception γ}
    (hf : ∀ operands, Catchable (f operands)) :
    Crashes (Platform.both call x y >>= f) ↔
      (Crashes x ∧ ((∃ b, y = .ok b) ∨ Platform.secondFirst call = false)) ∨
        (Crashes y ∧ ((∃ a, x = .ok a) ∨ Platform.secondFirst call = true)) := by
  rw [Crashes, bind_eq_error_iff, Platform.both_error_iff, or_iff_left]
  rintro ⟨operands, -, hcrash⟩
  exact (hf operands).not_crashes hcrash

namespace Exception

@[simp] theorem caught_invalidArgument (what : Bytes) : (invalidArgument what).Caught := nofun
@[simp] theorem caught_lengthError (what : Bytes) : (lengthError what).Caught := nofun
@[simp] theorem caught_runtimeError (what : Bytes) : (runtimeError what).Caught := nofun
@[simp] theorem caught_outOfRange (what : Bytes) : (outOfRange what).Caught := nofun
@[simp] theorem caught_badCast : badCast.Caught := nofun
@[simp] theorem caught_typeError (id : Nat) (what : Bytes) : (typeError id what).Caught := nofun
@[simp] theorem caught_optionException (what : Bytes) : (optionException what).Caught := nofun

end Exception

namespace Cxxopts

@[simp] theorem caught_argumentIncorrectType (text : Bytes) :
    (argumentIncorrectType text).Caught := nofun

theorem catchable_integerStep (width : Nat) (text : Bytes) (base : Bool) (result : Nat)
    (ch : UInt8) : Catchable (integerStep width text base result ch) := by
  rw [integerStep]
  split
  · simp
  · exact .ite (by simp) (.ok _)

theorem catchable_integerParser (width : Nat) (text : Bytes) :
    Catchable (integerParser width text) :=
  Raises.bind (.ite (by simp) (.ok _)) fun _ _ =>
    (Raises.foldlM (catchable_integerStep _ _ _) _ _).bind fun _ _ => .ite (by simp) (.ok _)

theorem catchable_parseValue (ty : OptionType) (text : Bytes) :
    Catchable (parseValue ty text) := by
  cases ty with
  | uint64 => exact (catchable_integerParser 64 text).map _
  | uint32 => exact (catchable_integerParser 32 text).map _
  | string => exact .ok _
  | strings => exact .ok _

theorem catchable_finish (t : OptionValue) (details : OptionDetails) :
    Catchable (t.finish details) := by
  rw [OptionValue.finish]
  split
  · exact .ok _
  · split
    · exact (catchable_parseValue _ _).bind fun _ _ => .ok _
    · exact .ok _

theorem catchable_parseOption (options : List OptionDetails) (store : OptionValue)
    (arg : Bytes × Bytes) : Catchable (parseOption options store arg) := by
  rw [parseOption]
  split
  · exact Raises.throw_iff.mpr fun h => by cases h
  · exact (catchable_parseValue _ _).bind fun _ _ => .ok _

theorem catchable_parsing (o : Options) (t : Parsing) (arg : Bytes × Bytes) :
    Catchable (t.parseOption o arg) := by
  rw [Parsing.parseOption]
  split
  · refine (Raises.map _ (Raises.map _ ?_)).bind fun _ _ => .ok _
    exact .ite (.ok _) (.ite (.ok _) (by simp))
  · exact (Raises.map _ (catchable_parseOption _ _ _)).bind fun _ _ => .ok _

theorem catchable_parseArguments (o : Options) (argv : List Bytes) (t : Parsing) :
    Catchable (Parsing.parseArguments o argv t) := by
  induction argv, t using Parsing.parseArguments.induct o with
  | case1 t => exact .ok t
  | case2 rest t =>
    rw [Parsing.parseArguments, if_pos rfl]
    exact .ok _
  | case3 arg rest t hne hnone hsyntax =>
    rw [Parsing.parseArguments, if_neg hne, hnone]
    simp only [if_pos hsyntax]
    exact Raises.throw_iff.mpr fun h => by cases h
  | case4 arg rest t hne hnone hsyntax ih =>
    rw [Parsing.parseArguments, if_neg hne, hnone]
    simp only [if_neg hsyntax]
    exact ih
  | case5 arg rest t hne desc hdesc hgrouping =>
    rw [Parsing.parseArguments, if_neg hne, hdesc]
    simp only [if_pos hgrouping]
    exact Raises.throw_iff.mpr fun h => by cases h
  | case6 arg rest t hne desc hdesc hgrouping hname =>
    rw [Parsing.parseArguments, if_neg hne, hdesc]
    simp only [if_neg hgrouping, if_pos hname]
    exact Raises.throw_iff.mpr fun h => by cases h
  | case7 arg rest t hne desc hdesc hgrouping hname hset ih =>
    rw [Parsing.parseArguments, if_neg hne, hdesc]
    simp only [if_neg hgrouping, if_neg hname, if_pos hset]
    exact (catchable_parsing _ _ _).bind fun t' _ => ih t'
  | case8 arg rest t hne desc hdesc hgrouping hname hset hflag ih =>
    rw [Parsing.parseArguments, if_neg hne, hdesc]
    simp only [if_neg hgrouping, if_neg hname, if_neg hset, if_pos hflag]
    exact (catchable_parsing _ _ _).bind fun t' _ => ih t'
  | case9 arg t hne desc hdesc hgrouping hname hset hflag =>
    rw [Parsing.parseArguments, if_neg hne, hdesc]
    simp only [if_neg hgrouping, if_neg hname, if_neg hset, if_neg hflag]
    exact Raises.throw_iff.mpr fun h => by cases h
  | case10 arg t hne desc hdesc hgrouping hname hset hflag value rest ih =>
    rw [Parsing.parseArguments, if_neg hne, hdesc]
    simp only [if_neg hgrouping, if_neg hname, if_neg hset, if_neg hflag]
    exact (catchable_parsing _ _ _).bind fun t' _ => ih t'

theorem catchable_parseArgv (o : Options) (argv : List Bytes) : Catchable (parseArgv o argv) :=
  (catchable_parseArguments o argv _).bind fun _ _ =>
    (Raises.foldlM (fun _ _ => Raises.map _ (catchable_finish _ _)) _ _).bind fun _ _ => .ok _

theorem catchable_getAs (t : ParseResult) (option : Bytes) (ty : OptionType) :
    Catchable (t.getAs option ty) := by
  refine Raises.bind ?_ fun value _ => ?_
  · rw [ParseResult.get]
    split
    · exact Raises.throw_iff.mpr fun h => by cases h
    · exact .ok _
  · rw [OptionValue.as]
    split
    · exact Raises.throw_iff.mpr fun h => by cases h
    · split <;> simp

end Cxxopts

theorem BigUInt.catchable_ofString (value : Bytes) : Catchable (BigUInt.ofString value) := by
  rw [ofString]
  split
  · exact Raises.throw_iff.mpr fun h => by cases h
  · split
    · exact Raises.throw_iff.mpr fun h => by cases h
    · exact .ok _

theorem catchable_convertBits (data : Bytes) (fromBits toBits : Nat) (pad : Bool) :
    Catchable (Bits.convertBits data fromBits toBits pad) := by
  refine Raises.bind (Raises.foldlM (fun c value => ?_) _ _) fun c _ => ?_
  · rw [Bits.Converter.read]
    exact .ite (by simp) (.ok _)
  · rw [Bits.Converter.finish]
    exact .ite (.ok _) (.ite (by simp) (.ok _))

namespace Address

theorem catchable_ofPublicKey (publicKey : Bytes) : Catchable (ofPublicKey publicKey) := by
  rw [ofPublicKey]
  split
  · simp
  · split
    · rename_i e he
      have hcompute : Catchable (computeBech32Address publicKey) :=
        (catchable_convertBits _ _ _ _).bind fun _ _ => .ok _
      exact Raises.error_iff.mpr (hcompute e he)
    · exact .ok _

theorem catchable_ofBech32Address (bech32Address : Bytes) :
    Catchable (ofBech32Address bech32Address) := by
  rw [ofBech32Address]
  split
  · simp
  · split
    · rename_i e he
      exact Raises.error_iff.mpr (catchable_convertBits _ _ _ _ e he)
    · exact .ok _

end Address

namespace Json
variable [Platform]

omit [Platform] in
theorem catchable_dumpEscaped (s : Bytes) : Catchable (dumpEscaped s) := by
  by_cases hs : Utf8.WellFormed s
  · rw [dumpEscaped_ok hs]
    exact .ok _
  · obtain ⟨what, hwhat⟩ := dumpEscaped_error hs
    rw [hwhat]
    simp

mutual
theorem catchable_dump : ∀ j : Json, Catchable (dump j)
  | null => by rw [dump]; exact .ok _
  | boolean _ => by rw [dump]; exact .ok _
  | numberUnsigned _ => by rw [dump]; exact .ok _
  | numberInteger _ => by rw [dump]; exact .ok _
  | numberFloat _ => by rw [dump]; exact .ok _
  | string s => by
    rw [dump]
    exact (catchable_dumpEscaped s).bind fun _ _ => .ok _
  | array [] => by rw [dump]; exact .ok _
  | array (x :: elements) => by
    rw [dump]
    exact (catchable_dump x).bind fun _ _ =>
      (catchable_dumpElements elements).bind fun _ _ => .ok _
  | object [] => by rw [dump]; exact .ok _
  | object ((key, value) :: members) => by
    rw [dump]
    exact (catchable_dumpEscaped key).bind fun _ _ => (catchable_dump value).bind fun _ _ =>
      (catchable_dumpMembers members).bind fun _ _ => .ok _

theorem catchable_dumpElements : ∀ elements : List Json, Catchable (dumpElements elements)
  | [] => by rw [dumpElements]; exact .ok _
  | x :: elements => by
    rw [dumpElements]
    exact (catchable_dump x).bind fun _ _ =>
      (catchable_dumpElements elements).bind fun _ _ => .ok _

theorem catchable_dumpMembers : ∀ members : List (Bytes × Json), Catchable (dumpMembers members)
  | [] => by rw [dumpMembers]; exact .ok _
  | (key, value) :: members => by
    rw [dumpMembers]
    exact (catchable_dumpEscaped key).bind fun _ _ => (catchable_dump value).bind fun _ _ =>
      (catchable_dumpMembers members).bind fun _ _ => .ok _
end

end Json

namespace Transaction
variable [Platform]

theorem catchable_serialize (t : Transaction) : Catchable t.serialize := by
  cases hr : t.receiver with
  | none => simp [serialize, hr]
  | some receiver =>
    cases hs : t.sender with
    | none => simp [serialize, hr, hs]
    | some sender =>
      rw [serialize_eq hr hs]
      exact Json.catchable_dump _

variable [Sodium]

theorem catchable_sign (t : Transaction) (signer : Signer) : Catchable (t.sign signer) :=
  Raises.bind ((catchable_serialize _).bind fun _ _ => .ok _) fun _ _ => .ok _

end Transaction

theorem Signer.catchable_new [Sodium] (seed : Bytes) : Catchable (Signer.new seed) := by
  rw [new]
  split <;> simp

theorem catchable_buildSigned [Platform] [Sodium] {build : Except Exception Transaction}
    (h : Catchable build) (seed : Bytes) : Catchable (buildSigned build seed) :=
  (Signer.catchable_new seed).bind fun _ _ => h.bind fun _ _ => Transaction.catchable_sign _ _

namespace SCArguments

theorem catchable_add (t : SCArguments) (arg : SCArgument) : Catchable (t.add arg) := by
  rw [add_eq]
  exact .ok _

end SCArguments

theorem TransactionFactory.catchable_createESDTIssue (t : TransactionFactory) (nonce : UInt64)
    (sender : Address) (gasPrice : UInt64) (token ticker : Bytes) (initialSupply : BigUInt)
    (numOfDecimals : UInt32) (esdtProperties : ESDTProperties) :
    Catchable (t.createESDTIssue nonce sender gasPrice token ticker initialSupply numOfDecimals
      esdtProperties) := by
  refine Raises.bind ?_ fun _ _ => (BigUInt.catchable_ofString _).bind fun _ _ =>
    (Address.catchable_ofBech32Address _).bind fun _ _ => .ok _
  exact (SCArguments.catchable_add _ _).bind fun _ _ =>
    (SCArguments.catchable_add _ _).bind fun _ _ =>
      (SCArguments.catchable_add _ _).bind fun _ _ =>
        (SCArguments.catchable_add _ _).bind fun _ _ => .ok _

theorem catchable_checkParam {T : Type} [DecidableEq T] (toText : T → Bytes)
    (param expectedParam : T) (error : Bytes) :
    Catchable (checkParam toText param expectedParam error) := by
  rw [checkParam]
  exact .ite (by simp) (.ok _)

theorem IFile.catchable_checkFile (files : Files) (path expectedExtension : Bytes) :
    Catchable (IFile.checkFile files path expectedExtension) := by
  rw [checkFile]
  split
  · simp
  · split
    · exact (catchable_checkParam _ _ _ _).bind fun _ _ => .ok _
    · exact .ok _

theorem PemFileReader.catchable_new (files : Files) (filePath : Bytes) :
    Catchable (PemFileReader.new files filePath) := by
  refine (IFile.catchable_checkFile _ _ _).bind fun _ _ => ?_
  dsimp only
  split
  · exact Raises.bind (by simp) (by simp)
  · split <;> simp

theorem KeyFileReader.catchable_getFileContent [Platform] (file : Bytes) :
    Catchable (getFileContent file) := by
  rw [getFileContent]
  split <;> simp

theorem Json.catchable_fromJson (j : Json) : Catchable j.fromJson := by
  rw [fromJson.eq_def]
  split <;> simp

theorem catchable_requireAttribute (data : Json) (key : Bytes) :
    Catchable (requireAttribute data key) := by
  rw [requireAttribute]
  split
  · exact .ok _
  · exact Raises.throw_iff.mpr fun h => by cases h

theorem Json.catchable_fromJsonUInt64 [Platform] (j : Json) : Catchable j.fromJsonUInt64 := by
  rw [fromJsonUInt64]
  split
  · exact .ok _
  · exact Raises.throw_iff.mpr fun h => by cases h

theorem Json.catchable_fromJsonUInt32 [Platform] (j : Json) : Catchable j.fromJsonUInt32 := by
  rw [fromJsonUInt32]
  split
  · exact .ok _
  · exact Raises.throw_iff.mpr fun h => by cases h

namespace ProxyProvider
open ErdGenericApiResponse

theorem catchable_getPayLoad (res : HttpResult) : Catchable (getPayLoad res) := by
  refine Raises.bind ?_ fun response _ => Raises.bind ?_ fun _ _ => catchable_requireAttribute _ _
  · rw [parse]
    refine .ite (by simp) ?_
    rw [ErdGenericApiResponse.new]
    split <;> simp
  · refine Raises.bind ?_ fun error _ => Raises.bind ?_ fun code _ => .ite (.ok _) (by simp)
    · rw [getError]
      split
      · exact .ok _
      · exact .ok _
      · exact Json.catchable_fromJson _
    · exact (catchable_requireAttribute _ _).bind fun _ _ => Json.catchable_fromJson _

theorem catchable_readTxHash (result : HttpResult) : Catchable (readTxHash result) :=
  (catchable_getPayLoad result).bind fun _ _ => (catchable_requireAttribute _ _).bind
    fun _ _ => Json.catchable_fromJson _

theorem catchable_readNetworkConfig [Platform] (result : HttpResult) :
    Catchable (readNetworkConfig result) :=
  (catchable_getPayLoad result).bind fun _ _ => (catchable_requireAttribute _ _).bind
    fun _ _ => (catchable_requireAttribute _ _).bind fun _ _ =>
    (catchable_requireAttribute _ _).bind fun _ _ => (catchable_requireAttribute _ _).bind
    fun _ _ => (catchable_requireAttribute _ _).bind fun _ _ => (Json.catchable_fromJson _).bind
    fun _ _ => (Json.catchable_fromJsonUInt32 _).bind fun _ _ =>
    (Json.catchable_fromJsonUInt32 _).bind fun _ _ => (Json.catchable_fromJsonUInt64 _).bind
    fun _ _ => .ok _

end ProxyProvider

namespace Cli
open Cxxopts

theorem catchable_getUserInputOrDefault (ty : OptionType) (userInputs : ParseResult)
    (value : Bytes) (defaultValue : ty.Val) :
    Catchable (getUserInputOrDefault ty userInputs value defaultValue) :=
  .ite (catchable_getAs _ _ _) (.ok _)

theorem catchable_getUserInputIfExistsBytes (userInputs : ParseResult) (arg : Bytes) :
    Catchable (getUserInputIfExistsBytes userInputs arg) :=
  .ite ((catchable_getAs _ _ _).bind fun _ _ => .ok _) (.ok _)

theorem catchable_createTransaction (result : ParseResult) (config : Config) :
    Catchable (createTransaction result config) := by
  refine (catchable_getUserInputOrDefault _ _ _ _).bind fun _ _ => Raises.bind ?_ fun _ _ =>
    Raises.bind ?_ fun _ _ => (catchable_getUserInputIfExistsBytes _ _).bind fun _ _ =>
    (catchable_getUserInputIfExistsBytes _ _).bind fun _ _ =>
    (catchable_getUserInputOrDefault _ _ _ _).bind fun _ _ =>
    (catchable_getUserInputOrDefault _ _ _ _).bind fun _ _ =>
    (catchable_getUserInputIfExistsBytes _ _).bind fun _ _ =>
    (catchable_getUserInputOrDefault _ _ _ _).bind fun _ _ => Raises.bind ?_ fun _ _ => .ok _
  · exact (catchable_getUserInputOrDefault _ _ _ _).bind fun _ _ => BigUInt.catchable_ofString _
  · exact .ite ((catchable_getAs _ _ _).bind fun _ _ =>
      (Address.catchable_ofBech32Address _).bind fun _ _ => .ok _) (.ok _)
  · exact .ite ((catchable_getAs _ _ _).bind fun _ _ => .ok _) (.ok _)

theorem catchable_checkEmptyValues (arguments : CommandLine) :
    Catchable (checkEmptyValues arguments) :=
  Raises.forM (fun _ => .ite (by simp) (.ok _)) _

theorem catchable_canParse (argv : List Bytes) (options : Options) :
    Catchable (ArgHandler.canParse argv options) := by
  refine (catchable_parseArgv _ _).bind fun result _ => ?_
  split
  · exact Raises.bind (by simp) nofun
  · exact (catchable_checkEmptyValues _).bind fun _ _ => .ok _

theorem catchable_parse [HelpTexts] (argv : List Bytes) : Catchable (ArgHandler.parse argv) := by
  have hcommand (requestType : RequestType) (options : Options) : Catchable (do
      .ok (ArgParsedResult.mk requestType [] (← ArgHandler.canParse argv options))) :=
    (catchable_canParse _ _).bind fun _ _ => .ok _
  exact .ite (.ok _) <| .ite (.ok _) <| .ite (.ok _) <| .ite (.ok _) <|
    .ite (hcommand _ _) <| .ite (hcommand _ _) <| .ite (hcommand _ _) <|
    .ite (hcommand _ _) (.ok _)

theorem catchable_networkAsked (result : ArgvResult) : Catchable (networkAsked result) := by
  refine (catchable_getAs _ _ _).bind fun network _ => Raises.bind ?_ fun _ _ => .ok _
  exact .ite (.ok _) <| .ite (.ok _) <| .ite (.ok _) <| .ite (.ok _) (by simp)

theorem catchable_setNetwork (t : CLIConfig) (network : Network) (files : Files) :
    Catchable (t.setNetwork network files).1 := by
  simp only [CLIConfig.setNetwork]
  split
  · split
    · exact .ok _
    · rename_i e he
      rw [CLIConfig.replace.eq_def] at he
      split at he
      · rw [← Except.error.inj he]
        simp
      · split at he
        · rw [← Except.error.inj he]
          simp
        · cases he
  · simp

end Cli

end MxSdk
