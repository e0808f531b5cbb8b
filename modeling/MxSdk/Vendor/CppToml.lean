import MxSdk.Basic
import MxSdk.Lib.OrderedMap

/-! What the configuration of the command line uses of the vendored TOML parser. How a text
is parsed is left open; the tables and the look-ups are those of cpptoml.h. -/

namespace MxSdk

/-- `cpptoml::base`, as far as the values are told apart. -/
inductive Toml where
  | string (s : Bytes)
  | table (entries : List (Bytes × Toml))
  | other

/-- `cpptoml::parser`: the root table, or what its exception says. -/
class TomlParser where
  parse (content : Bytes) : Except Bytes (List (Bytes × Toml))

namespace Toml

abbrev Table := List (Bytes × Toml)

def asString : Toml → Option Bytes
  | string s => some s
  | _ => none

def asTable : Toml → Option Table
  | table entries => some entries
  | _ => none

namespace Table

variable (t : Table)

def contains (key : Bytes) : Bool := (OrderedMap.find key t).isSome

/-- `get_table`, `none` for the null pointer. -/
def getTable (key : Bytes) : Option Table := (OrderedMap.find key t).bind asTable

/-- `get_as<std::string>` -/
def getAs (key : Bytes) : Option Bytes := (OrderedMap.find key t).bind asString

/-- `get_qualified_as<std::string>`: the last of the parts is looked up in the table that
the others lead to. -/
def getQualifiedAs (key : Bytes) : Option Bytes := do
  let parts := key.splitOn (chr '.')
  let table ← parts.dropLast.foldlM getTable t
  table.getAs (parts.getLastD [])

end Table

variable [TomlParser]

/-- `parse_file`. A file that is not there cannot be opened. -/
def parseFile (filename : Bytes) (content : Option Bytes) : Except Exception Table :=
  match content with
  | none => throw (.runtimeError (filename ++ ascii " could not be opened for parsing"))
  | some content =>
    match TomlParser.parse content with
    | .ok root => .ok root
    | .error what => throw (.runtimeError what)

theorem parseFile_ok_iff {filename : Bytes} {content : Option Bytes} {root : Table} :
    parseFile filename content = .ok root ↔
      ∃ text, content = some text ∧ TomlParser.parse text = .ok root := by
  cases content with
  | none => exact iff_of_false nofun nofun
  | some text =>
    rw [parseFile]
    cases hroot : TomlParser.parse text with
    | error what =>
      refine iff_of_false nofun ?_
      rintro ⟨text', htext, hroot'⟩
      rw [← Option.some.inj htext, hroot] at hroot'
      cases hroot'
    | ok root' =>
      refine ⟨fun h => ⟨text, rfl, by rw [hroot, Except.ok.inj h]⟩, ?_⟩
      rintro ⟨text', htext, hroot'⟩
      rw [← Option.some.inj htext, hroot] at hroot'
      rw [Except.ok.inj hroot']

end Toml

end MxSdk
