import MxSdk.Cli.Options
import MxSdk.Vendor.CxxoptsArgv

/-! inputhandler/arghandler.cpp, with the options of the remaining commands. A command is
two words, and what else stands on its line are its options. -/

namespace MxSdk.Cli
open Cxxopts

def initOptionsNetwork : List OptionDetails := [⟨ascii "config", .string, none⟩]

/-- The options of `esdt issue` that have a value. -/
def initOptionsIssue : List OptionDetails :=
  [⟨ascii "token", .string, none⟩,
    ⟨ascii "ticker", .string, none⟩,
    ⟨ascii "supply", .string, none⟩,
    ⟨ascii "dec", .uint32, none⟩,
    ⟨ascii "gas-price", .uint64, none⟩,
    ⟨ascii "key", .string, none⟩,
    ⟨ascii "password", .string, some []⟩,
    ⟨ascii "nonce", .uint64, none⟩]

/-- The options of `esdt issue` of type `bool`. -/
def initFlagsIssue : List Bytes :=
  [ascii "can-freeze", ascii "can-wipe", ascii "can-pause", ascii "can-mint", ascii "can-burn",
    ascii "can-change-owner", ascii "can-upgrade", ascii "can-add-roles"]

namespace CLIOptions

def transaction : Options where
  valued := initOptionsTx
  flags := []
  nodup := by decide +kernel
  names := by decide +kernel

def network : Options where
  valued := initOptionsNetwork
  flags := []
  nodup := by decide +kernel
  names := by decide +kernel

def issue : Options where
  valued := initOptionsIssue
  flags := initFlagsIssue
  nodup := by decide +kernel
  names := by decide +kernel

def transfer : Options where
  valued := initOptionsTransfer
  flags := []
  nodup := by decide +kernel
  names := by decide +kernel

end CLIOptions

/-- The texts that the vendored parser makes of the tables. -/
class HelpTexts where
  all : Bytes
  transaction : Bytes
  esdt : Bytes
  network : Bytes

inductive RequestType where
  | invalid
  | help
  | createSignedTransaction
  | issueESDT
  | transferESDT
  | setNetworkConfig
  deriving DecidableEq

structure ArgParsedResult where
  requestType : RequestType
  help : Bytes
  result : ArgvResult

/-- `cxxopts::ParseResult()` -/
def emptyResult : ArgvResult where
  options := []
  values _ := .new
  arguments := []
  flags _ := false
  unmatched := []

namespace ArgHandler

/-- `m_result` where `canParse` returns. -/
def canParse (argv : List Bytes) (options : Options) : Except Exception ArgvResult := do
  let result ← parseArgv options argv
  if result.unmatched.length ≠ 2 then
    throw (.invalidArgument (ascii "Invalid number of arguments"))
  checkEmptyValues result.arguments
  .ok result

def isHelp (arg : Bytes) : Bool :=
  arg = ascii "help" ∨ arg = ascii "--help" ∨ arg = ascii "-h"

variable [HelpTexts]

/-- The arguments are those behind the name of the program. -/
def parse (argv : List Bytes) : Except Exception ArgParsedResult :=
  let cmd := argv.getD 0 []
  let subCmd := argv.getD 1 []
  if isHelp cmd ∧ argv.length = 1 then .ok ⟨.help, HelpTexts.all, emptyResult⟩
  else if cmd = ascii "transaction" ∧ isHelp subCmd ∧ argv.length = 2 then
    .ok ⟨.help, HelpTexts.transaction, emptyResult⟩
  else if cmd = ascii "esdt" ∧ isHelp subCmd ∧ argv.length = 2 then
    .ok ⟨.help, HelpTexts.esdt, emptyResult⟩
  else if cmd = ascii "network" ∧ isHelp subCmd ∧ argv.length = 2 then
    .ok ⟨.help, HelpTexts.network, emptyResult⟩
  else if cmd = ascii "transaction" ∧ subCmd = ascii "new" then do
    .ok ⟨.createSignedTransaction, [], ← canParse argv CLIOptions.transaction⟩
  else if cmd = ascii "esdt" ∧ subCmd = ascii "issue" then do
    .ok ⟨.issueESDT, [], ← canParse argv CLIOptions.issue⟩
  else if cmd = ascii "esdt" ∧ subCmd = ascii "transfer" then do
    .ok ⟨.transferESDT, [], ← canParse argv CLIOptions.transfer⟩
  else if cmd = ascii "network" ∧ subCmd = ascii "set" then do
    .ok ⟨.setNetworkConfig, [], ← canParse argv CLIOptions.network⟩
  else .ok ⟨.invalid, [], emptyResult⟩

end ArgHandler

inductive Command where
  | createSignedTransaction
  | issueESDT
  | transferESDT
  | setNetworkConfig

namespace Command

def requestType : Command → RequestType
  | createSignedTransaction => .createSignedTransaction
  | issueESDT => .issueESDT
  | transferESDT => .transferESDT
  | setNetworkConfig => .setNetworkConfig

def words : Command → List Bytes
  | createSignedTransaction => [ascii "transaction", ascii "new"]
  | issueESDT => [ascii "esdt", ascii "issue"]
  | transferESDT => [ascii "esdt", ascii "transfer"]
  | setNetworkConfig => [ascii "network", ascii "set"]

def options : Command → Options
  | createSignedTransaction => CLIOptions.transaction
  | issueESDT => CLIOptions.issue
  | transferESDT => CLIOptions.transfer
  | setNetworkConfig => CLIOptions.network

def argvOf (c : Command) (line : CommandLine) : List Bytes := c.words ++ c.options.spell line

end Command

theorem checkEmptyValues_ok_iff {arguments : CommandLine} :
    checkEmptyValues arguments = .ok () ↔ ∀ arg ∈ arguments, arg.2 ≠ [] := by
  induction arguments with
  | nil => exact ⟨fun _ => List.forall_mem_nil _, fun _ => rfl⟩
  | cons arg arguments ih =>
    rw [List.forall_mem_cons]
    change ((if arg.2.isEmpty then throw (.invalidArgument (errorMsgEmptyValue ++ arg.1))
      else .ok ()) >>= fun _ => checkEmptyValues arguments) = _ ↔ _
    cases htext : arg.2 with
    | nil => exact iff_of_false nofun fun h => h.1 rfl
    | cons c text => exact ih.trans ⟨fun h => ⟨List.cons_ne_nil _ _, h⟩, fun h => h.2⟩

theorem spells_word_iff {o : Options} {word : Bytes} (hword : IsWord word) {argv : List Bytes}
    {line : CommandLine} {words : List Bytes} : Spells o (word :: argv) line words ↔
      ∃ rest, words = word :: rest ∧ Spells o argv line rest := by
  -- An option has more behind its first dash.
  have hdashes (text : Bytes) (h : word = dashes ++ text) : False := by
    rw [h] at hword
    exact absurd (congrArg List.length (hword rfl)) (by simp [dashes, ascii])
  constructor
  · intro h
    cases h with
    | stop => exact (hdashes [] (List.append_nil _).symm).elim
    | word _ h => exact ⟨_, rfl, h⟩
    | joined _ _ _ => exact (hdashes _ (List.append_assoc _ _ _)).elim
    | separate _ _ _ _ => exact (hdashes _ rfl).elim
    | flag _ _ => exact (hdashes _ rfl).elim
  · rintro ⟨rest, rfl, h⟩
    exact .word hword h

namespace ArgHandler

theorem canParse_ok_iff {argv : List Bytes} {o : Options} {p : ArgvResult} :
    canParse argv o = .ok p ↔ parseArgv o argv = .ok p ∧ p.unmatched.length = 2 ∧
      ∀ arg ∈ p.arguments, arg.2 ≠ [] := by
  constructor
  · intro h
    obtain ⟨result, hresult, h⟩ := bind_eq_ok h
    simp only at h
    split at h
    · cases h
    · rename_i hlength
      obtain ⟨_, hempty, h⟩ := bind_eq_ok h
      obtain rfl := Except.ok.inj h
      exact ⟨hresult, not_not.mp hlength, checkEmptyValues_ok_iff.mp hempty⟩
  · rintro ⟨hresult, hlength, hempty⟩
    rw [canParse, hresult]
    simp only [bind, Except.bind, hlength, ne_eq, not_true_eq_false, if_false,
      checkEmptyValues_ok_iff.mpr hempty]

variable [HelpTexts]

theorem parse_words (c : Command) (rest : List Bytes) : parse (c.words ++ rest) =
    (canParse (c.words ++ rest) c.options).map fun p => ⟨c.requestType, [], p⟩ := by
  have hdecide : isHelp (ascii "transaction") = false ∧ isHelp (ascii "esdt") = false ∧
      isHelp (ascii "network") = false ∧ isHelp (ascii "new") = false ∧
      isHelp (ascii "issue") = false ∧ isHelp (ascii "transfer") = false ∧
      isHelp (ascii "set") = false ∧ ascii "esdt" ≠ ascii "transaction" ∧
      ascii "network" ≠ ascii "transaction" ∧ ascii "network" ≠ ascii "esdt" ∧
      ascii "transfer" ≠ ascii "issue" := by decide +kernel
  cases c <;>
  · simp only [Command.words, Command.options, Command.requestType, List.cons_append,
      List.nil_append, parse, List.getD_cons_zero, List.getD_cons_succ, hdecide,
      Bool.false_eq_true, false_and, and_false, if_false, true_and, if_true]
    cases canParse _ _ <;> rfl

theorem words_of_parse {argv : List Bytes} {r : ArgParsedResult} (h : parse argv = .ok r)
    (c : Command) (hr : r.requestType = c.requestType) : ∃ rest, argv = c.words ++ rest := by
  have hwords {c' : Command} {p : ArgvResult} {cmd subCmd : Bytes} (hc : c'.words = [cmd, subCmd])
      (hne : cmd ≠ [] ∧ subCmd ≠ []) (hcmd : argv.getD 0 [] = cmd ∧ argv.getD 1 [] = subCmd)
      (hh : .ok ⟨c'.requestType, [], p⟩ = (.ok r : Except Exception ArgParsedResult)) :
      ∃ rest, argv = c.words ++ rest := by
    rw [← Except.ok.inj hh] at hr
    have hsame : c'.words = c.words := by cases c' <;> cases c <;> first | rfl | cases hr
    rw [← hsame, hc]
    cases argv with
    | nil => exact absurd hcmd.1.symm hne.1
    | cons first argv =>
      cases argv with
      | nil => exact absurd hcmd.2.symm hne.2
      | cons second rest => exact ⟨rest, by rw [← hcmd.1, ← hcmd.2]; rfl⟩
  have hother {requestType : RequestType} {help : Bytes}
      (hne : requestType = .help ∨ requestType = .invalid)
      (hh : .ok ⟨requestType, help, emptyResult⟩ = (.ok r : Except Exception ArgParsedResult)) :
      ∃ rest, argv = c.words ++ rest := by
    rw [← Except.ok.inj hh] at hr
    rcases hne with rfl | rfl <;> cases c <;> cases hr
  simp only [parse] at h
  split at h
  · exact hother (.inl rfl) h
  split at h
  · exact hother (.inl rfl) h
  split at h
  · exact hother (.inl rfl) h
  split at h
  · exact hother (.inl rfl) h
  split at h
  · rename_i hcmd
    obtain ⟨p, -, h⟩ := bind_eq_ok h
    exact @hwords .createSignedTransaction p _ _ rfl (by decide +kernel) hcmd h
  split at h
  · rename_i hcmd
    obtain ⟨p, -, h⟩ := bind_eq_ok h
    exact @hwords .issueESDT p _ _ rfl (by decide +kernel) hcmd h
  split at h
  · rename_i hcmd
    obtain ⟨p, -, h⟩ := bind_eq_ok h
    exact @hwords .transferESDT p _ _ rfl (by decide +kernel) hcmd h
  split at h
  · rename_i hcmd
    obtain ⟨p, -, h⟩ := bind_eq_ok h
    exact @hwords .setNetworkConfig p _ _ rfl (by decide +kernel) hcmd h
  · exact hother (.inr rfl) h

theorem eq_of_parse {argv : List Bytes} {r : ArgParsedResult} (h : parse argv = .ok r)
    {c : Command} (hr : r.requestType = c.requestType) : r = ⟨c.requestType, [], r.result⟩ := by
  obtain ⟨rest, rfl⟩ := words_of_parse h c hr
  rw [parse_words] at h
  obtain ⟨p, -, hpr⟩ := map_eq_ok h
  rw [← hpr]

end ArgHandler

theorem Command.requestType_injective : Function.Injective Command.requestType := by
  intro c c' h
  cases c <;> cases c' <;> first | rfl | cases h

theorem Command.isWord_words (c : Command) : ∀ word ∈ c.words, IsWord word := by
  cases c <;>
  · simp only [Command.words, List.forall_mem_cons, IsWord]
    exact ⟨fun h => absurd h (by decide +kernel), fun h => absurd h (by decide +kernel),
      List.forall_mem_nil _⟩

/-- A command is requested by its two words and a spelling of its options without any other
word, where no text is empty. -/
theorem parse_command_iff [HelpTexts] (c : Command) (argv : List Bytes) (p : ArgvResult) :
    ArgHandler.parse argv = .ok ⟨c.requestType, [], p⟩ ↔ ∃ rest line, argv = c.words ++ rest ∧
      Spells c.options rest line [] ∧ Gives c.options line p ∧ p.unmatched = c.words ∧
      ∀ arg ∈ line, arg.2 ≠ [] := by
  have hspells (rest : List Bytes) (line : CommandLine) (words : List Bytes) :
      Spells c.options (c.words ++ rest) line words ↔
        ∃ more, words = c.words ++ more ∧ Spells c.options rest line more := by
    obtain ⟨cmd, subCmd, hwords⟩ : ∃ cmd subCmd, c.words = [cmd, subCmd] := by
      cases c <;> exact ⟨_, _, rfl⟩
    have hword := c.isWord_words
    rw [hwords, List.forall_mem_cons, List.forall_mem_singleton] at hword
    rw [hwords]
    change Spells c.options (cmd :: subCmd :: rest) line words ↔ _
    simp only [spells_word_iff hword.1, spells_word_iff hword.2]
    constructor
    · rintro ⟨_, rfl, more, rfl, h⟩
      exact ⟨more, rfl, h⟩
    · rintro ⟨more, rfl, h⟩
      exact ⟨_, rfl, more, rfl, h⟩
  have hlength : c.words.length = 2 := by cases c <;> rfl
  constructor
  · intro h
    obtain ⟨rest, rfl⟩ := ArgHandler.words_of_parse h c rfl
    rw [ArgHandler.parse_words] at h
    obtain ⟨p', hp', hp⟩ := map_eq_ok h
    obtain rfl : p' = p := (ArgParsedResult.mk.inj hp).2.2
    obtain ⟨hparse, hlen, hne⟩ := ArgHandler.canParse_ok_iff.mp hp'
    obtain ⟨line, hargv, hgives⟩ := (parseArgv_ok_iff c.options _ _).mp hparse
    obtain ⟨more, hunmatched, hrest⟩ := (hspells rest line _).mp hargv
    have hmore : more = [] := by
      rw [hunmatched, List.length_append, hlength] at hlen
      exact List.length_eq_zero_iff.mp (by omega)
    subst hmore
    rw [hgives.arguments] at hne
    exact ⟨rest, line, rfl, hrest, hgives, by rw [hunmatched, List.append_nil], hne⟩
  · rintro ⟨rest, line, rfl, hrest, hgives, hunmatched, hne⟩
    rw [ArgHandler.parse_words]
    have hargv := hspells rest line p.unmatched |>.mpr ⟨[], by rw [List.append_nil, hunmatched], hrest⟩
    have hcan := ArgHandler.canParse_ok_iff.mpr ⟨parseArgv_of_gives hargv hgives,
      by rw [hunmatched, hlength], by rwa [hgives.arguments]⟩
    rw [hcan]
    rfl

end MxSdk.Cli
