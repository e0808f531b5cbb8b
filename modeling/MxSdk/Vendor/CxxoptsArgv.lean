import MxSdk.Vendor.Cxxopts

/-! `OptionParser::parse` of the vendored option parser: how options and words are told
apart on a command line. The expression `option_matcher` reads an argument in one way
only, as the characters of a name end it. Options that take no value are `bool`s here. -/

namespace MxSdk.Cxxopts

def optionSyntax (text : Bytes) : Exception :=
  .optionException (ascii "Argument " ++ quoted text ++
    ascii " starts with a - but has incorrect syntax")

def missingArgument (option : Bytes) : Exception :=
  .optionException (ascii "Option " ++ quoted option ++ ascii " is missing an argument")

def dashes : Bytes := ascii "--"

def isNameChar (c : UInt8) : Bool := c = chr '-' || c = chr '_' || isAlnum c

/-- What `.` stands for in an expression. -/
def isAny (c : UInt8) : Bool := c ≠ chr '\n' && c ≠ chr '\r'

/-- `[[:alnum:]][-_[:alnum:]]+` -/
def isName (name : Bytes) : Bool :=
  2 ≤ name.length && name.head?.any isAlnum && name.all isNameChar

structure ArguDesc where
  argName : Bytes
  grouping : Bool
  setValue : Bool
  value : Bytes
  deriving DecidableEq

def parseValuePart (name : Bytes) : Bytes → Option ArguDesc
  | [] => some ⟨name, false, false, []⟩
  | c :: value => if c = chr '=' && value.all isAny then some ⟨name, false, true, value⟩ else none

/-- `ParseArgument`, `none` where nothing matched. -/
def parseArgument : Bytes → Option ArguDesc
  | 45 :: 45 :: text =>
    let name := text.takeWhile isNameChar
    if isName name then parseValuePart name (text.dropWhile isNameChar) else none
  | 45 :: letters =>
    if !letters.isEmpty && letters.all isAlnum then some ⟨letters, true, false, []⟩ else none
  | _ => none

def parseBool (text : Bytes) : Except Exception Bool :=
  if text ∈ [ascii "t", ascii "T", ascii "true", ascii "True", ascii "1"] then .ok true
  else if text ∈ [ascii "f", ascii "F", ascii "false", ascii "False", ascii "0"] then .ok false
  else throw (argumentIncorrectType text)

def implicitValue : Bytes := ascii "true"

/-- The options of a command, by their long names, as none has a short one. -/
structure Options where
  valued : List OptionDetails
  flags : List Bytes
  nodup : (valued.map OptionDetails.longName ++ flags).Nodup
  names : ∀ name ∈ valued.map OptionDetails.longName ++ flags, isName name = true

namespace Options

/-- `m_options.find(name) != m_options.end()` -/
def declares (o : Options) (name : Bytes) : Bool := (find o.valued name).isSome || name ∈ o.flags

end Options

/-- What the loop over the arguments has made of those before. -/
structure Parsing where
  values : Bytes → OptionValue
  flags : Bytes → Option Bool
  sequential : CommandLine
  unmatched : List Bytes

namespace Parsing

def start : Parsing := ⟨fun _ => .new, fun _ => none, [], []⟩

def parseFlag (_store : Option Bool) (arg : Bytes × Bytes) : Except Exception (Option Bool) :=
  (parseBool arg.2).map some

def parseOption (o : Options) (t : Parsing) (arg : Bytes × Bytes) : Except Exception Parsing := do
  if arg.1 ∈ o.flags then
    let flags ← KeyedUpdate.step Prod.fst parseFlag t.flags arg
    .ok { t with flags, sequential := t.sequential ++ [arg] }
  else
    let values ← KeyedUpdate.step Prod.fst (Cxxopts.parseOption o.valued) t.values arg
    .ok { t with values, sequential := t.sequential ++ [arg] }

def word (t : Parsing) (words : List Bytes) : Parsing :=
  { t with unmatched := t.unmatched ++ words }

def parseArguments (o : Options) : List Bytes → Parsing → Except Exception Parsing
  | [], t => .ok t
  | arg :: rest, t =>
    if arg = dashes then .ok (t.word rest)
    else match parseArgument arg with
      | none =>
        if arg.head? = some (chr '-') ∧ arg.length ≠ 1 then throw (optionSyntax arg)
        else parseArguments o rest (t.word [arg])
      | some desc =>
        if desc.grouping then throw (optionNotExists (desc.argName.take 1))
        else if !o.declares desc.argName then throw (optionNotExists desc.argName)
        else if desc.setValue then do
          parseArguments o rest (← t.parseOption o (desc.argName, desc.value))
        else if desc.argName ∈ o.flags then do
          parseArguments o rest (← t.parseOption o (desc.argName, implicitValue))
        else match rest with
          | [] => throw (missingArgument desc.argName)
          | value :: rest => do parseArguments o rest (← t.parseOption o (desc.argName, value))

end Parsing

/-- `cxxopts::ParseResult` with its flags and the words that are no options. -/
structure ArgvResult extends ParseResult where
  flags : Bytes → Bool
  unmatched : List Bytes

/-- `parse(argc, argv)`, without the name of the program. -/
def parseArgv (o : Options) (argv : List Bytes) : Except Exception ArgvResult := do
  let parsed ← Parsing.parseArguments o argv .start
  let values ← KeyedUpdate.run OptionDetails.longName OptionValue.finish parsed.values o.valued
  .ok {
    options := o.valued
    values
    arguments := parsed.sequential
    flags := fun name => (parsed.flags name).getD false
    unmatched := parsed.unmatched }

/-! How an argument is recognised. -/

/-- An argument that is no option. -/
def IsWord (arg : Bytes) : Prop := arg.head? = some (chr '-') → arg = ascii "-"

theorem parseArgument_word {arg : Bytes} (h : IsWord arg) : parseArgument arg = none := by
  unfold parseArgument
  split
  · exact absurd (h rfl) (by simp [ascii])
  · rename_i letters _
    rw [(List.cons.inj (h rfl)).2]
    rfl
  · rfl

theorem takeWhile_name {name : Bytes} (h : isName name = true) {rest : Bytes}
    (hrest : ∀ c ∈ rest.head?, isNameChar c = false) :
    (name ++ rest).takeWhile isNameChar = name ∧ (name ++ rest).dropWhile isNameChar = rest := by
  have hall : ∀ c ∈ name, isNameChar c = true := by
    rw [isName, Bool.and_eq_true] at h
    exact List.all_eq_true.mp h.2
  rw [List.takeWhile_append_of_pos hall, List.dropWhile_append_of_pos hall]
  cases rest with
  | nil => simp
  | cons c rest => simp [hrest c rfl]

theorem parseArgument_long {name : Bytes} (h : isName name = true) (rest : Bytes)
    (hrest : ∀ c ∈ rest.head?, isNameChar c = false) :
    parseArgument (dashes ++ name ++ rest) = parseValuePart name rest := by
  obtain ⟨htake, hdrop⟩ := takeWhile_name h hrest
  change (if isName ((name ++ rest).takeWhile isNameChar) = true then
    parseValuePart ((name ++ rest).takeWhile isNameChar) ((name ++ rest).dropWhile isNameChar)
    else none) = _
  rw [htake, hdrop, if_pos h]

theorem parseArgument_separate {name : Bytes} (h : isName name = true) :
    parseArgument (dashes ++ name) = some ⟨name, false, false, []⟩ := by
  have hlong := parseArgument_long h [] (fun c hc => by cases hc)
  rwa [List.append_nil] at hlong

theorem parseArgument_joined {name value : Bytes} (h : isName name = true)
    (hvalue : value.all isAny = true) :
    parseArgument (dashes ++ name ++ chr '=' :: value) = some ⟨name, false, true, value⟩ := by
  have hhead : ∀ c ∈ (chr '=' :: value).head?, isNameChar c = false := by
    intro c hc
    rw [← Option.some.inj hc]
    decide
  rw [parseArgument_long h _ hhead, parseValuePart, hvalue]
  rfl

theorem eq_of_parseArgument {arg : Bytes} {desc : ArguDesc} (h : parseArgument arg = some desc)
    (hlong : desc.grouping = false) : isName desc.argName = true ∧
      ((desc.setValue = false ∧ arg = dashes ++ desc.argName) ∨
        desc.setValue = true ∧ desc.value.all isAny = true ∧
          arg = dashes ++ desc.argName ++ chr '=' :: desc.value) := by
  unfold parseArgument at h
  split at h
  · rename_i text
    simp only at h
    split at h
    · rename_i hname
      have htext := List.takeWhile_append_dropWhile (p := isNameChar) (l := text)
      cases htail : text.dropWhile isNameChar with
      | nil =>
        rw [htail, List.append_nil] at htext
        rw [htail, parseValuePart, Option.some.injEq] at h
        rw [← h]
        exact ⟨hname, .inl ⟨rfl, by rw [htext]; rfl⟩⟩
      | cons c value =>
        rw [htail] at htext
        rw [htail, parseValuePart] at h
        split at h
        · rename_i hc
          rw [Bool.and_eq_true, decide_eq_true_eq] at hc
          rw [← Option.some.inj h]
          refine ⟨hname, .inr ⟨rfl, hc.2, ?_⟩⟩
          rw [← hc.1, List.append_assoc, htext]
          rfl
        · cases h
    · cases h
  · split at h
    · rw [← Option.some.inj h] at hlong
      cases hlong
    · cases h
  · cases h

/-! What a command line says. -/

/-- The arguments that give these options with these texts, and these words besides. An
option has its text behind a sign or in the next argument, whatever that looks like. -/
inductive Spells (o : Options) : List Bytes → CommandLine → List Bytes → Prop
  | nil : Spells o [] [] []
  | stop (rest : List Bytes) : Spells o (dashes :: rest) [] rest
  | word {arg : Bytes} (harg : IsWord arg) {argv : List Bytes} {line : CommandLine}
      {words : List Bytes} (h : Spells o argv line words) :
      Spells o (arg :: argv) line (arg :: words)
  | joined {name text : Bytes} (hname : o.declares name = true) (htext : text.all isAny = true)
      {argv : List Bytes} {line : CommandLine} {words : List Bytes} (h : Spells o argv line words) :
      Spells o ((dashes ++ name ++ chr '=' :: text) :: argv) ((name, text) :: line) words
  | separate {name : Bytes} (hname : o.declares name = true) (hvalued : name ∉ o.flags)
      (text : Bytes) {argv : List Bytes} {line : CommandLine} {words : List Bytes}
      (h : Spells o argv line words) :
      Spells o ((dashes ++ name) :: text :: argv) ((name, text) :: line) words
  | flag {name : Bytes} (hname : name ∈ o.flags) {argv : List Bytes} {line : CommandLine}
      {words : List Bytes} (h : Spells o argv line words) :
      Spells o ((dashes ++ name) :: argv) ((name, implicitValue) :: line) words

namespace Options

variable {o : Options} {name : Bytes}

theorem declares_of_mem_flags (h : name ∈ o.flags) : o.declares name = true := by
  rw [declares, decide_eq_true h, Bool.or_true]

theorem isName_of_declares (h : o.declares name = true) : isName name = true := by
  refine o.names name (List.mem_append.mpr ?_)
  rw [declares, Bool.or_eq_true, decide_eq_true_eq] at h
  refine h.imp (fun hfind => ?_) id
  obtain ⟨details, hdetails⟩ := Option.isSome_iff_exists.mp hfind
  obtain ⟨hmem, hname⟩ := mem_of_find hdetails
  exact hname ▸ List.mem_map_of_mem hmem

end Options

theorem isWord_of_unflagged {arg : Bytes} (h : ¬ (arg.head? = some (chr '-') ∧ arg.length ≠ 1)) :
    IsWord arg := by
  intro hhead
  have hlength : arg.length = 1 := not_not.mp fun hne => h ⟨hhead, hne⟩
  obtain ⟨c, rfl⟩ := List.length_eq_one_iff.mp hlength
  exact congrArg (fun c => [c]) (Option.some.inj hhead)

theorem ne_dashes {name rest : Bytes} (h : isName name = true) : dashes ++ name ++ rest ≠ dashes := by
  intro heq
  have hlength := congrArg List.length heq
  rw [isName, Bool.and_eq_true, Bool.and_eq_true, decide_eq_true_eq] at h
  rw [List.length_append, List.length_append] at hlength
  omega

namespace Parsing

variable {o : Options} {t t' : Parsing} {argv : List Bytes}

theorem parseOption_word (t : Parsing) (words : List Bytes) (arg : Bytes × Bytes) :
    (t.word words).parseOption o arg = (t.parseOption o arg).map (word · words) := by
  rw [parseOption, parseOption]
  split
  · change (KeyedUpdate.step _ _ t.flags arg >>= _) = _
    cases KeyedUpdate.step Prod.fst parseFlag t.flags arg <;> rfl
  · change (KeyedUpdate.step _ _ t.values arg >>= _) = _
    cases KeyedUpdate.step Prod.fst (Cxxopts.parseOption o.valued) t.values arg <;> rfl

theorem foldlM_word (line : CommandLine) (t : Parsing) (words : List Bytes) :
    line.foldlM (parseOption o) (t.word words) =
      (line.foldlM (parseOption o) t).map (word · words) := by
  induction line generalizing t with
  | nil => rfl
  | cons arg line ih =>
    rw [List.foldlM_cons, List.foldlM_cons, parseOption_word]
    cases t.parseOption o arg with
    | error e => rfl
    | ok t' => exact ih t'

theorem word_word (t : Parsing) (words more : List Bytes) :
    (t.word words).word more = t.word (words ++ more) := by
  rw [word, word, word, List.append_assoc]

theorem parseArguments_of_spells {line : CommandLine} {words : List Bytes}
    (h : Spells o argv line words) (t : Parsing) :
    parseArguments o argv t = (line.foldlM (parseOption o) t).map (word · words) := by
  induction h generalizing t with
  | nil =>
    change Except.ok t = .ok (t.word [])
    rw [word, List.append_nil]
  | stop rest => rw [parseArguments, if_pos rfl]; rfl
  | @word arg harg argv line words _ ih =>
    have hne : arg ≠ dashes := by
      rintro rfl
      exact absurd (harg rfl) (by decide +kernel)
    have hsyntax : ¬ (arg.head? = some (chr '-') ∧ arg.length ≠ 1) := fun hbad =>
      hbad.2 (by rw [harg hbad.1]; rfl)
    rw [parseArguments, if_neg hne, parseArgument_word harg]
    simp only [if_neg hsyntax]
    rw [ih, foldlM_word]
    cases line.foldlM (parseOption o) t with
    | error e => rfl
    | ok t' => exact congrArg Except.ok (word_word t' [arg] words)
  | @joined name text hname htext argv line words _ ih =>
    have hisName := Options.isName_of_declares hname
    rw [parseArguments, if_neg (ne_dashes hisName), parseArgument_joined hisName htext]
    simp only [hname, Bool.not_true, Bool.false_eq_true, if_false, if_true]
    rw [List.foldlM_cons]
    cases t.parseOption o (name, text) with
    | error e => rfl
    | ok t' => exact ih t'
  | @separate name hname hvalued text argv line words _ ih =>
    have hisName := Options.isName_of_declares hname
    have hne := @ne_dashes name [] hisName
    rw [List.append_nil] at hne
    rw [parseArguments, if_neg hne, parseArgument_separate hisName]
    simp only [hname, Bool.not_true, Bool.false_eq_true, if_false, if_neg hvalued]
    rw [List.foldlM_cons]
    cases t.parseOption o (name, text) with
    | error e => rfl
    | ok t' => exact ih t'
  | @flag name hname argv line words _ ih =>
    have hdeclares := Options.declares_of_mem_flags hname
    have hisName := Options.isName_of_declares hdeclares
    have hne := @ne_dashes name [] hisName
    rw [List.append_nil] at hne
    rw [parseArguments, if_neg hne, parseArgument_separate hisName]
    simp only [hdeclares, Bool.not_true, Bool.false_eq_true, if_false, if_pos hname]
    rw [List.foldlM_cons]
    cases t.parseOption o (name, implicitValue) with
    | error e => rfl
    | ok t' => exact ih t'

theorem spells_of_parseArguments (h : parseArguments o argv t = .ok t') :
    ∃ line words, Spells o argv line words := by
  induction argv, t using parseArguments.induct o with
  | case1 t => exact ⟨[], [], .nil⟩
  | case2 rest t => exact ⟨[], rest, .stop rest⟩
  | case3 arg rest t hne hnone hsyntax =>
    rw [parseArguments, if_neg hne, hnone] at h
    simp only [if_pos hsyntax] at h
    cases h
  | case4 arg rest t hne hnone hsyntax ih =>
    rw [parseArguments, if_neg hne, hnone] at h
    simp only [if_neg hsyntax] at h
    obtain ⟨line, words, hspells⟩ := ih h
    exact ⟨line, arg :: words, .word (isWord_of_unflagged hsyntax) hspells⟩
  | case5 arg rest t hne desc hdesc hgrouping =>
    rw [parseArguments, if_neg hne, hdesc] at h
    simp only [if_pos hgrouping] at h
    cases h
  | case6 arg rest t hne desc hdesc hgrouping hname =>
    rw [parseArguments, if_neg hne, hdesc] at h
    simp only [if_neg hgrouping, if_pos hname] at h
    cases h
  | case7 arg rest t hne desc hdesc hgrouping hname hset ih =>
    obtain ⟨-, ⟨hunset, -⟩ | ⟨-, hvalue, rfl⟩⟩ :=
      eq_of_parseArgument hdesc (Bool.eq_false_iff.mpr hgrouping)
    · cases hunset.symm.trans hset
    · rw [parseArguments, if_neg hne, hdesc] at h
      simp only [if_neg hgrouping, if_neg hname, if_pos hset] at h
      obtain ⟨t₁, -, h⟩ := bind_eq_ok h
      obtain ⟨line, words, hspells⟩ := ih t₁ h
      exact ⟨_, words, .joined (by simpa using hname) hvalue hspells⟩
  | case8 arg rest t hne desc hdesc hgrouping hname hset hflag ih =>
    obtain ⟨-, ⟨-, rfl⟩ | ⟨hset', -, -⟩⟩ :=
      eq_of_parseArgument hdesc (Bool.eq_false_iff.mpr hgrouping)
    · rw [parseArguments, if_neg hne, hdesc] at h
      simp only [if_neg hgrouping, if_neg hname, if_neg hset, if_pos hflag] at h
      obtain ⟨t₁, -, h⟩ := bind_eq_ok h
      obtain ⟨line, words, hspells⟩ := ih t₁ h
      exact ⟨_, words, .flag hflag hspells⟩
    · exact absurd hset' hset
  | case9 arg t hne desc hdesc hgrouping hname hset hflag =>
    rw [parseArguments, if_neg hne, hdesc] at h
    simp only [if_neg hgrouping, if_neg hname, if_neg hset, if_neg hflag] at h
    cases h
  | case10 arg t hne desc hdesc hgrouping hname hset hflag value rest ih =>
    obtain ⟨-, ⟨-, rfl⟩ | ⟨hset', -, -⟩⟩ :=
      eq_of_parseArgument hdesc (Bool.eq_false_iff.mpr hgrouping)
    · rw [parseArguments, if_neg hne, hdesc] at h
      simp only [if_neg hgrouping, if_neg hname, if_neg hset, if_neg hflag] at h
      obtain ⟨t₁, -, h⟩ := bind_eq_ok h
      obtain ⟨line, words, hspells⟩ := ih t₁ h
      exact ⟨_, words, .separate (by simpa using hname) hflag value hspells⟩
    · exact absurd hset' hset

end Parsing

/-! The values of what was given. -/

namespace Options

variable (o : Options)

/-- The options of a line that are no flags. -/
def valuedPart (line : CommandLine) : CommandLine := line.filter fun arg => arg.1 ∉ o.flags

def flagPart (line : CommandLine) : CommandLine := line.filter fun arg => arg.1 ∈ o.flags

end Options

/-- The last text of a flag counts. -/
def lastFlag (line : CommandLine) (name : Bytes) : Option Bool :=
  line.foldl (fun b arg => if arg.1 = name then (parseBool arg.2).toOption else b) none

theorem run_parseFlag_ok_iff {line : CommandLine} {f f' : Bytes → Option Bool} :
    KeyedUpdate.run Prod.fst Parsing.parseFlag f line = .ok f' ↔
      (∀ arg ∈ line, (parseBool arg.2).isOk = true) ∧ f' = fun name =>
        line.foldl (fun b arg => if arg.1 = name then (parseBool arg.2).toOption else b) (f name) := by
  induction line generalizing f with
  | nil =>
    exact ⟨fun h => ⟨List.forall_mem_nil _, (Except.ok.inj h).symm⟩,
      fun h => congrArg Except.ok h.2.symm⟩
  | cons arg line ih =>
    rw [KeyedUpdate.run, List.foldlM_cons, List.forall_mem_cons, KeyedUpdate.step,
      Parsing.parseFlag]
    cases hbool : parseBool arg.2 with
    | error e => exact iff_of_false (fun h => by cases h) fun h => by cases h.1.1
    | ok b =>
      have hstart (name : Bytes) : Function.update f arg.1 (some b) name =
          if arg.1 = name then some b else f name := by
        rw [Function.update_apply]
        exact if_congr eq_comm rfl rfl
      change KeyedUpdate.run Prod.fst Parsing.parseFlag (Function.update f arg.1 (some b)) line =
        .ok f' ↔ _
      rw [ih]
      simp only [List.foldl_cons, hbool, hstart]
      exact ⟨fun h => ⟨⟨rfl, h.1⟩, h.2⟩, fun h => ⟨h.1.2, h.2⟩⟩

namespace Parsing

variable {o : Options} {t t' : Parsing}

theorem foldlM_parseOption_ok_iff {line : CommandLine} :
    line.foldlM (parseOption o) t = .ok t' ↔
      KeyedUpdate.run Prod.fst (Cxxopts.parseOption o.valued) t.values (o.valuedPart line) =
          .ok t'.values ∧
        KeyedUpdate.run Prod.fst parseFlag t.flags (o.flagPart line) = .ok t'.flags ∧
        t'.sequential = t.sequential ++ line ∧ t'.unmatched = t.unmatched := by
  induction line generalizing t with
  | nil =>
    rw [List.append_nil]
    constructor
    · intro h
      rw [← Except.ok.inj h]
      exact ⟨rfl, rfl, rfl, rfl⟩
    · rintro ⟨hvalues, hflags, hsequential, hunmatched⟩
      refine congrArg Except.ok ?_
      cases t
      cases t'
      simp only [Parsing.mk.injEq]
      exact ⟨Except.ok.inj hvalues, Except.ok.inj hflags, hsequential.symm, hunmatched.symm⟩
  | cons arg line ih =>
    rw [List.foldlM_cons, parseOption, Options.valuedPart, Options.flagPart, List.filter_cons,
      List.filter_cons]
    by_cases hflag : arg.1 ∈ o.flags
    · simp only [hflag, not_true, decide_true, decide_false, Bool.false_eq_true, if_true, if_false]
      rw [KeyedUpdate.run, KeyedUpdate.run, List.foldlM_cons]
      cases KeyedUpdate.step Prod.fst parseFlag t.flags arg with
      | error e => exact iff_of_false (fun h => by cases h) fun h => by cases h.2.1
      | ok flags =>
        refine (@ih { t with flags, sequential := t.sequential ++ [arg] }).trans ?_
        rw [List.append_assoc, List.singleton_append]
        rfl
    · simp only [hflag, not_false_iff, decide_true, decide_false, Bool.false_eq_true, if_true,
        if_false]
      rw [KeyedUpdate.run, KeyedUpdate.run, List.foldlM_cons]
      cases KeyedUpdate.step Prod.fst (Cxxopts.parseOption o.valued) t.values arg with
      | error e => exact iff_of_false (fun h => by cases h) fun h => by cases h.1
      | ok values =>
        refine (@ih { t with values, sequential := t.sequential ++ [arg] }).trans ?_
        rw [List.append_assoc, List.singleton_append]
        rfl

end Parsing

section Argv
variable {o : Options} {argv argv' : List Bytes} {line : CommandLine} {words : List Bytes}

/-- A result gives the options of the line, with the flags kept apart, and the words. -/
structure Gives (o : Options) (line : CommandLine) (p : ArgvResult) : Prop where
  arguments : p.arguments = line
  flags_read : ∀ arg ∈ o.flagPart line, (parseBool arg.2).isOk = true
  flags : ∀ name, p.flags name = (lastFlag (o.flagPart line) name).getD false
  valued : parse o.valued (o.valuedPart line) =
    .ok { p.toParseResult with arguments := o.valuedPart line }

theorem gives_of_spells (hspells : Spells o argv line words) {p : ArgvResult}
    (h : parseArgv o argv = .ok p) : p.unmatched = words ∧ Gives o line p := by
  rw [parseArgv, Parsing.parseArguments_of_spells hspells] at h
  obtain ⟨parsed, hparsed, h⟩ := bind_eq_ok h
  obtain ⟨values, hvalues, h⟩ := bind_eq_ok h
  cases hfold : line.foldlM (Parsing.parseOption o) .start with
  | error e =>
    rw [hfold] at hparsed
    cases hparsed
  | ok t =>
    rw [hfold] at hparsed
    obtain ⟨hrun, hflags, hsequential, hunmatched⟩ := Parsing.foldlM_parseOption_ok_iff.mp hfold
    obtain ⟨hread, hlast⟩ := run_parseFlag_ok_iff.mp hflags
    rw [← Except.ok.inj hparsed] at h hvalues
    rw [← Except.ok.inj h]
    refine ⟨?_, ?_, hread, fun name => ?_, ?_⟩
    · change t.unmatched ++ words = words
      rw [hunmatched]
      rfl
    · exact hsequential
    · change (t.flags name).getD false = _
      rw [hlast]
      rfl
    · have hvalues' : KeyedUpdate.run OptionDetails.longName OptionValue.finish t.values
          o.valued = .ok values := hvalues
      have hrun' : KeyedUpdate.run Prod.fst (Cxxopts.parseOption o.valued) (fun _ => .new)
          (o.valuedPart line) = .ok t.values := hrun
      rw [parse, hrun']
      simp only [bind, Except.bind, hvalues']

theorem parseArgv_of_gives {p : ArgvResult} (hspells : Spells o argv line p.unmatched)
    (h : Gives o line p) : parseArgv o argv = .ok p := by
  obtain ⟨parsed, hparsed, hvalues, hoptions, -⟩ := parse_eq_ok h.valued
  have hflags := run_parseFlag_ok_iff.mpr ⟨h.flags_read, @rfl _ (lastFlag (o.flagPart line))⟩
  have hfold : line.foldlM (Parsing.parseOption o) .start =
      .ok ⟨parsed, lastFlag (o.flagPart line), line, []⟩ :=
    Parsing.foldlM_parseOption_ok_iff.mpr ⟨hparsed, hflags, rfl, rfl⟩
  rw [parseArgv, Parsing.parseArguments_of_spells hspells, hfold]
  change (KeyedUpdate.run OptionDetails.longName OptionValue.finish parsed o.valued >>= _) = _
  rw [hvalues]
  refine congrArg Except.ok ?_
  obtain ⟨⟨options, values, arguments⟩, flags, unmatched⟩ := p
  simp only [ArgvResult.mk.injEq, ParseResult.mk.injEq, true_and]
  exact ⟨⟨hoptions.symm, h.arguments.symm⟩, funext fun name => (h.flags name).symm, rfl⟩

/-- The options with their texts, those of flags behind a sign. -/
def Options.spell (o : Options) (line : CommandLine) : List Bytes :=
  line.flatMap fun arg =>
    if arg.1 ∈ o.flags then [dashes ++ arg.1 ++ chr '=' :: arg.2] else [dashes ++ arg.1, arg.2]

/-- Only a flag cannot have every text, as nothing behind a sign crosses a line. -/
def Options.CanSpell (o : Options) (line : CommandLine) : Prop :=
  ∀ arg ∈ line, o.declares arg.1 = true ∧ (arg.1 ∈ o.flags → arg.2.all isAny = true)

instance (o : Options) (line : CommandLine) : Decidable (o.CanSpell line) :=
  inferInstanceAs (Decidable (∀ arg ∈ line, _ ∧ _))

theorem spells_spell (hline : o.CanSpell line) (h : Spells o argv [] words) :
    Spells o (o.spell line ++ argv) line words := by
  induction line with
  | nil => exact h
  | cons arg line ih =>
    obtain ⟨hname, htext⟩ := hline arg List.mem_cons_self
    have hrest := ih fun other hother => hline other (List.mem_cons_of_mem _ hother)
    rw [Options.spell, List.flatMap_cons, List.append_assoc]
    split
    · rename_i hflag
      exact .joined hname (htext hflag) hrest
    · rename_i hvalued
      exact .separate hname hvalued arg.2 hrest

end Argv

theorem parseArgv_ok_iff (o : Options) (argv : List Bytes) (p : ArgvResult) :
    parseArgv o argv = .ok p ↔ ∃ line, Spells o argv line p.unmatched ∧ Gives o line p := by
  constructor
  · intro h
    obtain ⟨parsed, hparsed, -⟩ := bind_eq_ok h
    obtain ⟨line, words, hspells⟩ := Parsing.spells_of_parseArguments hparsed
    obtain ⟨rfl, hgives⟩ := gives_of_spells hspells h
    exact ⟨line, hspells, hgives⟩
  · rintro ⟨line, hspells, h⟩
    exact parseArgv_of_gives hspells h

end MxSdk.Cxxopts
