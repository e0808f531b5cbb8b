import MxSdk.Account.Address
import MxSdk.Utils.Base64
import MxSdk.Utils.Hex
import MxSdk.Wrappers.CryptoSignWrapper

/-! filehandler/ifile.cpp, filehandler/isecretkey.h and filehandler/pemreader.cpp. The files
are a map from paths to contents. -/

namespace MxSdk

/-- `util::checkParam`; `toText` is `std::to_string`, or nothing for a string. -/
def checkParam {T : Type} [DecidableEq T] (toText : T → Bytes) (param expectedParam : T)
    (error : Bytes) : Except Exception Unit :=
  if param ≠ expectedParam then
    throw (.invalidArgument
      (error ++ ascii "Expected: " ++ toText expectedParam ++ ascii ", got: " ++ toText param))
  else .ok ()

abbrev Files := Bytes → Option Bytes

namespace IFile

/-- What follows the last point; nothing without one. -/
def getFileExtension (filePath : Bytes) : Bytes :=
  if chr '.' ∈ filePath then (filePath.reverse.takeWhile (· ≠ chr '.')).reverse else []

/-- `IFile(path, expectedExtension)`, with the content of the file. -/
def checkFile (files : Files) (path expectedExtension : Bytes) : Except Exception Bytes :=
  match files path with
  | none => throw (.invalidArgument (errorMsgFileDoesNotExist ++ path))
  | some content => do
    if !expectedExtension.isEmpty then
      checkParam id (getFileExtension path) expectedExtension errorMsgFileExtensionInvalid
    .ok content

theorem checkFile_eq {files : Files} {path expectedExtension content : Bytes}
    (hfile : files path = some content) (hextension : getFileExtension path = expectedExtension) :
    checkFile files path expectedExtension = .ok content := by
  have hparam : checkParam id expectedExtension expectedExtension errorMsgFileExtensionInvalid =
      .ok () := if_neg (not_not.mpr rfl)
  simp only [checkFile, hfile, hextension, hparam]
  split <;> rfl

theorem checkFile_ok {files : Files} {path expectedExtension content : Bytes}
    (h : checkFile files path expectedExtension = .ok content) : files path = some content := by
  rw [checkFile] at h
  cases hfile : files path with
  | none =>
    rw [hfile] at h
    cases h
  | some file =>
    rw [hfile] at h
    simp only at h
    split at h
    · obtain ⟨-, -, h⟩ := bind_eq_ok h
      rw [Except.ok.inj h]
    · rw [Except.ok.inj h]

theorem checkFile_extension {files : Files} {path expectedExtension content : Bytes}
    (h : checkFile files path expectedExtension = .ok content) (hne : expectedExtension ≠ []) :
    files path = some content ∧ getFileExtension path = expectedExtension := by
  refine ⟨checkFile_ok h, ?_⟩
  rw [checkFile, checkFile_ok h] at h
  simp only [List.isEmpty_eq_false_iff.mpr hne, Bool.not_false, if_true] at h
  obtain ⟨_, hparam, -⟩ := bind_eq_ok h
  rw [checkParam] at hparam
  split at hparam
  · cases hparam
  · rename_i hextension
    exact not_not.mp hextension

end IFile

/-- The two methods of a key file. -/
structure ISecretKey where
  getAddress : Except Exception Address
  getSeed : Except Exception Bytes

@[ext] structure PemFileReader where
  fileKeyBytes : Bytes
  length_eq : fileKeyBytes.length = seedLength + publicKeyLength

namespace PemFileReader

/-- From `2 ^ 32 - 1` characters on the loop of `hexToBytes` only ends as the memory does, with
another exception than that for the number of bytes there are here. -/
def getKeyBytesFromContent (content : Bytes) : Bytes :=
  let keyHex := Base64.decode content
  Hex.hexToBytes keyHex

/-- The lines of a file, without those that begin with five dashes. -/
def getFileContent (file : Bytes) : Bytes :=
  ((file.splitOn (chr '\n')).filter fun line => line.take 5 ≠ ascii "-----").flatten

def new (files : Files) (filePath : Bytes) : Except Exception PemFileReader := do
  let file ← IFile.checkFile files filePath (ascii "pem")
  let fileContent := getFileContent file
  if fileContent.isEmpty then throw (.invalidArgument errorMsgFileEmpty)
  let fileKeyBytes := getKeyBytesFromContent fileContent
  if h : fileKeyBytes.length ≠ seedLength + publicKeyLength then
    throw (.lengthError errorMsgKeyBytesSize)
  else .ok ⟨fileKeyBytes, not_not.mp h⟩

theorem new_of_content {files : Files} {filePath file key : Bytes}
    (hfile : IFile.checkFile files filePath (ascii "pem") = .ok file)
    (h : Base64.decode (getFileContent file) = Hex.stringToHex key)
    (hlength : key.length = seedLength + publicKeyLength) :
    ∃ reader, new files filePath = .ok reader ∧ reader.fileKeyBytes = key := by
  have hkey : getKeyBytesFromContent (getFileContent file) = key := by
    rw [getKeyBytesFromContent, h, Hex.hexToBytes_stringToHex]
  have hne : (getFileContent file).isEmpty = false := by
    rw [List.isEmpty_eq_false_iff]
    intro hnil
    rw [hnil] at h
    have hzero := congrArg List.length h
    rw [Hex.length_stringToHex, hlength] at hzero
    cases hzero
  refine ⟨⟨key, hlength⟩, ?_, rfl⟩
  simp only [new, hfile, hne, hkey, hlength, bind, Except.bind, Bool.false_eq_true, if_false,
    ne_eq, not_true_eq_false, dite_false]

def getAddress (t : PemFileReader) : Except Exception Address :=
  let pubKey := t.fileKeyBytes.drop seedLength
  Address.ofPublicKey pubKey

def getSeed (t : PemFileReader) : Bytes := t.fileKeyBytes.take seedLength

def toSecretKey (t : PemFileReader) : ISecretKey := ⟨t.getAddress, .ok t.getSeed⟩

/-- The text behind the base 64 of a file. -/
def keyHex (file : Bytes) : Bytes := Base64.decode (getFileContent file)

theorem new_eq {files : Files} {filePath file : Bytes} (hfile : files filePath = some file)
    (hextension : IFile.getFileExtension filePath = ascii "pem") :
    ((keyHex file).length = 127 ∨ (keyHex file).length = 128 → ∃ reader,
        new files filePath = .ok reader ∧ reader.fileKeyBytes = Hex.hexToBytes (keyHex file)) ∧
      (¬ ((keyHex file).length = 127 ∨ (keyHex file).length = 128) →
        ∃ e, new files filePath = .error e) := by
  have hcheck := IFile.checkFile_eq hfile hextension
  have hlength := Hex.length_hexToBytes (keyHex file)
  rw [new, hcheck]
  simp only [bind, Except.bind]
  by_cases hempty : (getFileContent file).isEmpty = true
  · have hnil : keyHex file = [] := by rw [keyHex, List.isEmpty_iff.mp hempty]; rfl
    rw [if_pos hempty, hnil]
    exact ⟨nofun, fun _ => ⟨_, rfl⟩⟩
  · rw [if_neg hempty]
    constructor
    · intro h
      have hsize : (Hex.hexToBytes (keyHex file)).length = seedLength + publicKeyLength := by
        rw [hlength, seedLength, publicKeyLength]
        omega
      exact ⟨⟨_, hsize⟩, dif_neg (not_not.mpr hsize), rfl⟩
    · intro h
      refine ⟨.lengthError errorMsgKeyBytesSize, dif_pos fun hsize => h ?_⟩
      change (Hex.hexToBytes (keyHex file)).length = 64 at hsize
      omega

def IsHexDigit (c : UInt8) : Prop :=
  (chr '0' ≤ c ∧ c ≤ chr '9') ∨ (chr 'a' ≤ c ∧ c ≤ chr 'f') ∨ (chr 'A' ≤ c ∧ c ≤ chr 'F')

def IsKeyText (s : Bytes) : Prop := s.length = 128 ∧ ∀ c ∈ s, IsHexDigit c

/-- A text that is one character short, or has a character that is no digit. -/
def Damaged (s : Bytes) : Prop := s.length = 127 ∨ (s.length = 128 ∧ ∃ c ∈ s, ¬ IsHexDigit c)

theorem not_damaged_iff {s : Bytes} :
    ¬ Damaged s ↔ (s.length = 127 ∨ s.length = 128 → IsKeyText s) := by
  constructor
  · intro h hlength
    have hlong : s.length = 128 := hlength.resolve_left fun hshort => h (.inl hshort)
    refine ⟨hlong, fun c hc => ?_⟩
    by_contra hdigit
    exact h (.inr ⟨hlong, c, hc, hdigit⟩)
  · rintro h (hshort | ⟨hlong, c, hc, hdigit⟩)
    · have hkey := (h (.inl hshort)).1
      omega
    · exact hdigit ((h (.inr hlong)).2 c hc)

structure ReadsKeys (files : Files) (filePath file : Bytes) : Prop where
  key : ∀ reader, new files filePath = .ok reader → IsKeyText (keyHex file) ∧
    Hex.hexToString ((keyHex file).take 64) = .ok reader.getSeed ∧
    ∃ address, reader.getAddress = .ok address ∧
      Hex.hexToString ((keyHex file).drop 64) = .ok address.publicKey
  other : ¬ IsKeyText (keyHex file) → ∃ e, new files filePath = .error e

theorem halves_of_keyText {s : Bytes} (h : IsKeyText s) :
    Hex.hexToString (s.take 64) = .ok ((Hex.hexToBytes s).take seedLength) ∧
      Hex.hexToString (s.drop 64) = .ok ((Hex.hexToBytes s).drop seedLength) := by
  obtain ⟨hlength, hdigits⟩ := h
  have hleft : (s.take 64).length = 64 := by
    rw [List.length_take]
    omega
  have hright : (s.drop 64).length = 64 := by
    rw [List.length_drop]
    omega
  have hread (t : Bytes) (hlen : t.length = 64) (hsub : t ⊆ s) :
      Hex.hexToString t = .ok (Hex.hexToBytes t) :=
    Hex.hexToString_of_isHexText
      ⟨by omega, fun c hc => Hex.isHexDigit_iff.mpr (hdigits c (hsub hc))⟩
  have hcut : Hex.hexToBytes s = Hex.hexToBytes (s.take 64) ++ Hex.hexToBytes (s.drop 64) := by
    rw [← Hex.hexToBytes_append _ _ (by omega), List.take_append_drop]
  have hseed : (Hex.hexToBytes (s.take 64)).length = seedLength := by
    rw [Hex.length_hexToBytes, hleft]
    rfl
  rw [hcut, List.take_left' hseed, List.drop_left' hseed]
  exact ⟨hread _ hleft (List.take_subset 64 s), hread _ hright (List.drop_subset 64 s)⟩

/-- A damaged text is read as a key too. -/
theorem new_keys_iff {files : Files} {filePath file : Bytes} (hfile : files filePath = some file)
    (hextension : IFile.getFileExtension filePath = ascii "pem") :
    ReadsKeys files filePath file ↔ ¬ Damaged (keyHex file) := by
  obtain ⟨haccept, hreject⟩ := new_eq hfile hextension
  rw [not_damaged_iff]
  constructor
  · intro h hlength
    obtain ⟨reader, hreader, -⟩ := haccept hlength
    exact (h.key reader hreader).1
  · intro h
    by_cases hlength : (keyHex file).length = 127 ∨ (keyHex file).length = 128
    · have hkey := h hlength
      obtain ⟨hseed, hpublic⟩ := halves_of_keyText hkey
      obtain ⟨reader, hreader, hbytes⟩ := haccept hlength
      refine ⟨fun reader' hreader' => ⟨hkey, ?_⟩, fun hnot => absurd hkey hnot⟩
      obtain rfl := Except.ok.inj (hreader.symm.trans hreader')
      have hsize : (reader.fileKeyBytes.drop seedLength).length = publicKeyLength := by
        rw [List.length_drop, reader.length_eq, Nat.add_sub_cancel_left]
      obtain ⟨address, haddress, hpk, -⟩ := Address.ofPublicKey_ok hsize
      rw [hseed, hpublic, ← hbytes]
      exact ⟨rfl, address, haddress, by rw [hpk]⟩
    · obtain ⟨e, he⟩ := hreject hlength
      refine ⟨fun reader hreader => ?_, fun _ => ⟨e, he⟩⟩
      rw [he] at hreader
      cases hreader

/-- A file of one line, in which each byte of the key is seven. -/
def sevens : Bytes := Base64.encode (Hex.stringToHex (List.replicate 64 7))

theorem new_keys_iff_sevens : ReadsKeys (fun _ => some sevens) (ascii "wallet.pem") sevens ↔
    ¬ Damaged (keyHex sevens) :=
  new_keys_iff rfl (by decide +kernel)

/-- A file of one line, behind which no character is a hexadecimal digit. -/
def noDigits : Bytes := Base64.encode (List.replicate 128 (chr 'z'))

theorem new_keys_fails : ¬ ∀ (files : Files) (filePath file : Bytes), files filePath = some file →
    IFile.getFileExtension filePath = ascii "pem" → ReadsKeys files filePath file := by
  intro h
  have hextension : IFile.getFileExtension (ascii "wallet.pem") = ascii "pem" := by decide +kernel
  have hcontent : getFileContent noDigits = noDigits := by decide +kernel
  have hhex : keyHex noDigits = List.replicate 128 (chr 'z') := by
    rw [keyHex, hcontent, noDigits, Base64.decode_encode]
  obtain ⟨reader, hreader, -⟩ := (@new_eq (fun _ => some noDigits) _ _ rfl hextension).1
    (.inr (by rw [hhex]; rfl))
  have hkey := ((h (fun _ => some noDigits) _ noDigits rfl hextension).key reader hreader).1
  rw [hhex] at hkey
  exact absurd (hkey.2 (chr 'z') (List.mem_replicate.mpr ⟨by decide, rfl⟩))
    (by unfold IsHexDigit; decide)

end PemFileReader

end MxSdk
