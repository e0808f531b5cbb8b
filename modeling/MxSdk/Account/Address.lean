import MxSdk.Utils.Bits
import MxSdk.Vendor.Bech32

/-! account/address.cpp. An address keeps a public key and a bech32 text. Its
invariant is that the text reads back as the key; both constructors establish it,
and copies and assignments move the two together. -/

namespace MxSdk
open Bits

def publicKeyLength : Nat := 32
def kNoBitsInByte : Nat := 8
def kNoBitsInBech32 : Nat := 5

namespace Address

def hrp : Bytes := ascii "erd"

def computeBech32Address (pk : Bytes) : Except Exception Bytes := do
  let pk5BitsPerByte ← convertBits pk kNoBitsInByte kNoBitsInBech32 true
  .ok (Bech32.encode hrp pk5BitsPerByte)

def computePkFromBech32 (bech32Address : Bytes) : Except Exception Bytes :=
  convertBits (Bech32.decode bech32Address).2 kNoBitsInBech32 kNoBitsInByte false

/-- The text carries the prefix `erd` and its payload regroups to the key. -/
def Reads (text pk : Bytes) : Prop :=
  (Bech32.decode text).1 = hrp ∧ computePkFromBech32 text = .ok pk

instance (text pk : Bytes) : Decidable (Reads text pk) := inferInstanceAs (Decidable (_ ∧ _))

end Address

structure Address where
  publicKey : Bytes
  bech32Address : Bytes
  reads : Address.Reads bech32Address publicKey

namespace Address

theorem hrp_ne_nil : hrp ≠ [] := by decide +kernel

theorem hrp_plain : Bech32.Plain hrp := by
  have all : ∀ c ∈ hrp, Bech32.outOfRange c = false ∧ Bech32.isUpper c = false := by decide +kernel
  exact all

theorem reads_iff {text pk : Bytes} :
    Reads text pk ↔ ∃ g, Bech32.Spelling hrp g text ∧ convertBits g 5 8 false = .ok pk := by
  constructor
  · intro ⟨hfst, hpk⟩
    exact ⟨_, (Bech32.decode_eq_iff hrp_ne_nil).mp (Prod.ext hfst rfl), hpk⟩
  · rintro ⟨g, hg, hpk⟩
    have hdecode := (Bech32.decode_eq_iff hrp_ne_nil).mpr hg
    exact ⟨congrArg Prod.fst hdecode, by rw [computePkFromBech32, hdecode]; exact hpk⟩

theorem computeBech32Address_reads {pk : Bytes} (h : pk.length = publicKeyLength) :
    ∃ text, computeBech32Address pk = .ok text ∧ Reads text pk ∧ Bech32.Plain text := by
  obtain ⟨g, hg, hw, hback⟩ := convertBits_bytes pk
  obtain ⟨k, hk, hlen⟩ := length_of_words hback
  rw [h, publicKeyLength] at hlen
  have hrp3 : hrp.length = 3 := rfl
  refine ⟨Bech32.encode hrp g, ?_, reads_iff.mpr ⟨g, ?_, hback⟩, Bech32.encode_plain hrp_plain hw⟩
  · rw [computeBech32Address, kNoBitsInByte, kNoBitsInBech32, hg]
    rfl
  · exact Bech32.spelling_encode hrp_plain hw (by omega)

theorem reads_of_compute {pk text : Bytes} (h : pk.length = publicKeyLength)
    (htext : computeBech32Address pk = .ok text) : Reads text pk := by
  obtain ⟨text', htext', hreads, -⟩ := computeBech32Address_reads h
  rw [htext] at htext'
  rw [Except.ok.inj htext']
  exact hreads

/-- `Address(bytes const &publicKey)`. -/
def ofPublicKey (publicKey : Bytes) : Except Exception Address :=
  if h : publicKey.length ≠ publicKeyLength then throw (.lengthError errorMsgKeyBytesSize)
  else
    match htext : computeBech32Address publicKey with
    | .error e => .error e
    | .ok text => .ok ⟨publicKey, text, reads_of_compute (not_not.mp h) htext⟩

/-- `Address(std::string const &bech32Address)`. -/
def ofBech32Address (bech32Address : Bytes) : Except Exception Address :=
  if h : (Bech32.decode bech32Address).1 ≠ hrp then throw (.invalidArgument errorMsgBech32)
  else
    match hpk : computePkFromBech32 bech32Address with
    | .error e => .error e
    | .ok pk => .ok ⟨pk, bech32Address, not_not.mp h, hpk⟩

/-- `operator==` compares the keys only. -/
def equals (a b : Address) : Bool := a.publicKey = b.publicKey

/-- `operator=`: both members of the right side replace those of the left. -/
def assign (_lhs rhs : Address) : Address := ⟨rhs.publicKey, rhs.bech32Address, rhs.reads⟩

theorem publicKey_of_text {a b : Address} (h : a.bech32Address = b.bech32Address) :
    a.publicKey = b.publicKey := by
  have ha := a.reads.2
  rw [h, b.reads.2] at ha
  exact (Except.ok.inj ha).symm

@[ext] theorem ext_text {a b : Address} (h : a.bech32Address = b.bech32Address) : a = b := by
  have hpk := publicKey_of_text h
  cases a
  cases b
  simp_all

instance : DecidableEq Address := fun a b =>
  decidable_of_iff (a.bech32Address = b.bech32Address) ⟨ext_text, fun h => h ▸ rfl⟩

theorem ofBech32Address_text (a : Address) : ofBech32Address a.bech32Address = .ok a := by
  obtain ⟨hfst, hpk⟩ := a.reads
  unfold ofBech32Address
  rw [dif_neg (not_not.mpr hfst)]
  split
  · rename_i e he
    rw [hpk] at he
    cases he
  · exact congrArg Except.ok (ext_text rfl)

theorem ofBech32Address_eq_ok_iff {s : Bytes} {a : Address} :
    ofBech32Address s = .ok a ↔ a.bech32Address = s := by
  constructor
  · intro h
    unfold ofBech32Address at h
    split at h
    · cases h
    · split at h
      · cases h
      · rw [← Except.ok.inj h]
  · rintro rfl
    exact ofBech32Address_text a

theorem text_ascii (a : Address) : ∀ c ∈ a.bech32Address, c ≤ 0x7f := by
  intro c hc
  obtain ⟨g, hg, -⟩ := reads_iff.mp a.reads
  have hrange := hg.inRange c hc
  simp only [Bech32.outOfRange, Bool.or_eq_false_iff, decide_eq_false_iff_not] at hrange
  have hle := hrange.2
  rw [UInt8.lt_iff_toNat_lt] at hle
  rw [UInt8.le_iff_toNat_le]
  change ¬ 126 < c.toNat at hle
  change c.toNat ≤ 127
  omega

theorem ofBech32Address_error {s : Bytes} {e : Exception} (h : ofBech32Address s = .error e) :
    e.IsInvalidArgument := by
  unfold ofBech32Address at h
  split at h
  · rw [← Except.error.inj h]
    trivial
  · split at h
    · rename_i e' he
      obtain rfl := Except.error.inj h
      rw [convertBits_error he]
      trivial
    · cases h

theorem ofPublicKey_ok {pk : Bytes} (h : pk.length = publicKeyLength) :
    ∃ a, ofPublicKey pk = .ok a ∧ a.publicKey = pk ∧ Bech32.Plain a.bech32Address := by
  obtain ⟨text, htext, -, hplain⟩ := computeBech32Address_reads h
  refine ⟨⟨pk, text, reads_of_compute h htext⟩, ?_, rfl, hplain⟩
  unfold ofPublicKey
  rw [dif_neg (not_not.mpr h)]
  split
  · rename_i e he
    rw [htext] at he
    cases he
  · rename_i text' htext'
    rw [htext] at htext'
    exact congrArg Except.ok (ext_text (Except.ok.inj htext').symm)

theorem ofPublicKey_length {pk : Bytes} {a : Address} (h : ofPublicKey pk = .ok a) :
    a.publicKey.length = publicKeyLength := by
  unfold ofPublicKey at h
  split at h
  · cases h
  · rename_i hlen
    split at h
    · cases h
    · rw [← Except.ok.inj h]
      exact not_not.mp hlen

end Address

end MxSdk
