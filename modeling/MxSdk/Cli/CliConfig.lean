import MxSdk.FileHandler.PemFileReader
import MxSdk.Lib.Lines

/-! cli/config/cliconfig.cpp: the network is switched by an edit of one line of the
configuration. The line is found by reading line by line, and then a second time by a
search for its text in the whole file. -/

namespace MxSdk

inductive Network where
  | mainnet
  | devnet
  | testnet
  | «local»

/-- The path is the canonical one. -/
structure CLIConfig where
  tomlPath : Bytes

namespace CLIConfig

/-- `m_networkMap.at(network)`. -/
def toString : Network → Bytes
  | .mainnet => ascii "Mainnet"
  | .devnet => ascii "Devnet"
  | .testnet => ascii "Testnet"
  | .local => ascii "Local"

def key : Bytes := ascii "CLIConfig"

def newLine (network : Network) : Bytes :=
  ascii "CLIConfig = " ++ ascii "\"" ++ toString network ++ ascii "\""

/-- `std::string::replace`. No place is `npos`. -/
def replace (s : Bytes) (pos : Option Nat) (length : Nat) (str : Bytes) : Except Exception Bytes :=
  match pos with
  | none => throw (.outOfRange (ascii "basic_string::replace"))
  | some pos =>
    if s.length < pos then throw (.outOfRange (ascii "basic_string::replace"))
    else .ok (Lines.splice s pos length str)

/-- What is thrown, and the files after it. A file that cannot be opened reads as nothing. -/
def setNetwork (t : CLIConfig) (network : Network) (files : Files) :
    Except Exception Unit × Files :=
  let strStream := (files t.tomlPath).getD []
  match Lines.firstLine (chr '\n') (fun currLine => (Lines.find key currLine).isSome) strStream with
  | some currLine =>
    match replace strStream (Lines.find currLine strStream) currLine.length (newLine network) with
    | .ok fileContent => (.ok (), Function.update files t.tomlPath (some fileContent))
    | .error e => (.error e, files)
  | none =>
    (.error (.runtimeError (ascii "Could not find CLIConfig table in " ++ t.tomlPath)), files)

def lines (content : Bytes) : List Bytes := content.splitOn (chr '\n')

def unlines (lines : List Bytes) : Bytes := [chr '\n'].intercalate lines

def written (t : CLIConfig) (files : Files) (content : Bytes) : Files :=
  Function.update files t.tomlPath (some content)

theorem written_written (t : CLIConfig) (files : Files) (content content' : Bytes) :
    t.written (t.written files content) content' = t.written files content' :=
  Function.update_idem _ _ _

theorem infix_newLine (network : Network) : key <:+: newLine network := by
  refine ⟨[], ascii " = " ++ ascii "\"" ++ toString network ++ ascii "\"", ?_⟩
  rfl

theorem not_mem_newLine (network : Network) : chr '\n' ∉ newLine network := by
  cases network <;> decide +kernel

theorem firstLine_lines (content : Bytes) :
    Lines.firstLine (chr '\n') (fun currLine => (Lines.find key currLine).isSome) content =
      (lines content).find? fun line => key <:+: line := by
  have hkey (line : Bytes) : (Lines.find key line).isSome = decide (key <:+: line) := by
    rw [Bool.eq_iff_iff, Lines.isSome_find_iff, decide_eq_true_eq]
  simp only [hkey]
  exact Lines.firstLine_eq (by decide +kernel) content

variable {t : CLIConfig} {files : Files} {content : Bytes}

theorem written_self (t : CLIConfig) (files : Files) (content : Bytes) :
    (t.written files content t.tomlPath).getD [] = content := by
  rw [written, Function.update_self]
  rfl

theorem setNetwork_of_first {before after : List Bytes} {line : Bytes}
    (hlines : lines content = before ++ line :: after) (hbefore : ∀ l ∈ before, ¬ key <:+: l)
    (hline : key <:+: line) (network : Network) :
    t.setNetwork network (t.written files content) =
      (.ok (), t.written files (unlines (before ++ newLine network :: after))) := by
  have hfirst : (lines content).find? (fun line => key <:+: line) = some line :=
    List.find?_eq_some_iff_append.mpr ⟨decide_eq_true hline, before, after, hlines,
      fun l hl => by simp [hbefore l hl]⟩
  -- An earlier place of the line would be in a line with the key.
  obtain ⟨pos, hfind, hpos, hsplice⟩ := Lines.splice_line hlines
    fun l hl hinfix => hbefore l hl (hline.trans hinfix)
  have hreplace : replace content (Lines.find line content) line.length (newLine network) =
      .ok (unlines (before ++ newLine network :: after)) := by
    rw [hfind, replace]
    simp only [if_neg (Nat.not_lt.mpr hpos), hsplice]
    rfl
  simp only [setNetwork, written_self, firstLine_lines, hfirst, hreplace]
  exact congrArg _ (written_written t files content _)

theorem setNetwork_of_none (h : ∀ line ∈ lines content, ¬ key <:+: line) (network : Network) :
    t.setNetwork network (t.written files content) =
      (.error (.runtimeError (ascii "Could not find CLIConfig table in " ++ t.tomlPath)),
        t.written files content) := by
  have hnone : (lines content).find? (fun line => key <:+: line) = none :=
    List.find?_eq_none.mpr fun line hline => by simp [h line hline]
  simp only [setNetwork, written_self, firstLine_lines, hnone]

theorem lines_unlines {before after : List Bytes} {line : Bytes}
    (hlines : lines content = before ++ line :: after) (network : Network) :
    lines (unlines (before ++ newLine network :: after)) = before ++ newLine network :: after := by
  have hmem : ∀ l ∈ before ++ line :: after, chr '\n' ∉ l :=
    hlines ▸ Lines.not_mem_of_mem_splitOn content
  refine List.splitOn_intercalate _ (fun l hl => ?_) (by simp)
  rcases List.mem_append.mp hl with hl | hl
  · exact hmem l (List.mem_append_left _ hl)
  · rcases List.mem_cons.mp hl with rfl | hl
    · exact not_mem_newLine network
    · exact hmem l (List.mem_append_right _ (List.mem_cons_of_mem _ hl))

theorem written_eq_self (h : files t.tomlPath = some content) : t.written files content = files := by
  rw [written, ← h]
  exact Function.update_eq_self _ _

theorem setNetwork_error {network : Network} {files' : Files} {e : Exception}
    (h : t.setNetwork network files = (.error e, files')) : files' = files := by
  simp only [setNetwork] at h
  split at h
  · split at h
    · cases h
    · exact (congrArg Prod.snd h).symm
  · exact (congrArg Prod.snd h).symm

theorem setNetwork_ok {network : Network} {files' : Files}
    (h : t.setNetwork network files = (.ok (), files')) : ∃ content before line after,
      files t.tomlPath = some content ∧ lines content = before ++ line :: after ∧
      (∀ l ∈ before, ¬ key <:+: l) ∧ key <:+: line ∧
      files' = t.written files (unlines (before ++ newLine network :: after)) := by
  obtain ⟨content, hcontent⟩ : ∃ content, files t.tomlPath = some content := by
    cases hfile : files t.tomlPath with
    | some content => exact ⟨content, rfl⟩
    | none =>
      simp only [setNetwork, hfile, Option.getD_none, Lines.firstLine_nil] at h
      cases congrArg Prod.fst h
  have hself := written_eq_self hcontent
  by_cases hkey : ∃ line ∈ lines content, key <:+: line
  · obtain ⟨_, hmem, hline⟩ := hkey
    have hsome : ((lines content).find? fun line => key <:+: line).isSome = true :=
      List.find?_isSome.mpr ⟨_, hmem, decide_eq_true hline⟩
    obtain ⟨line, hfirst⟩ := Option.isSome_iff_exists.mp hsome
    obtain ⟨hline, before, after, hlines, hbefore⟩ := List.find?_eq_some_iff_append.mp hfirst
    replace hline := of_decide_eq_true hline
    replace hbefore : ∀ l ∈ before, ¬ key <:+: l := fun l hl => by simpa using hbefore l hl
    refine ⟨content, before, line, after, hcontent, hlines, hbefore, hline, ?_⟩
    have hset := @setNetwork_of_first t files _ _ _ _ hlines hbefore hline network
    rw [hself, h] at hset
    exact congrArg Prod.snd hset
  · have hset := @setNetwork_of_none t files content
      (fun line hmem hline => hkey ⟨line, hmem, hline⟩) network
    rw [hself, h] at hset
    cases congrArg Prod.fst hset

theorem setNetwork_last_write (t : CLIConfig) (files : Files) (content : Bytes) :
    ((∃ line ∈ lines content, key <:+: line) → ∃ before line after,
      lines content = before ++ line :: after ∧ (∀ l ∈ before, ¬ key <:+: l) ∧ key <:+: line ∧
      ∀ a b : Network,
        let edited := t.written files (unlines (before ++ newLine a :: after))
        t.setNetwork a (t.written files content) = (.ok (), edited) ∧
        t.setNetwork b edited = t.setNetwork b (t.written files content)) ∧
    ((∀ line ∈ lines content, ¬ key <:+: line) → ∀ a : Network,
      t.setNetwork a (t.written files content) =
        (.error (.runtimeError (ascii "Could not find CLIConfig table in " ++ t.tomlPath)),
          t.written files content)) := by
  refine ⟨fun ⟨_, hmem, hkey⟩ => ?_, fun h => setNetwork_of_none h⟩
  have hsome : ((lines content).find? fun line => key <:+: line).isSome = true :=
    List.find?_isSome.mpr ⟨_, hmem, decide_eq_true hkey⟩
  obtain ⟨line, hfirst⟩ := Option.isSome_iff_exists.mp hsome
  obtain ⟨hline, before, after, hlines, hbefore⟩ := List.find?_eq_some_iff_append.mp hfirst
  replace hline := of_decide_eq_true hline
  replace hbefore : ∀ l ∈ before, ¬ key <:+: l := fun l hl => by simpa using hbefore l hl
  refine ⟨before, line, after, hlines, hbefore, hline, fun a b => ?_⟩
  -- The line that was written has the key, and no line before it has.
  exact ⟨setNetwork_of_first hlines hbefore hline a,
    (setNetwork_of_first (lines_unlines hlines a) hbefore (infix_newLine a) b).trans
      (setNetwork_of_first hlines hbefore hline b).symm⟩

end CLIConfig

end MxSdk
