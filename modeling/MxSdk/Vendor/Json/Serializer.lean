import MxSdk.Vendor.Json.Value
import MxSdk.Lib.Utf8
import MxSdk.Lib.Decimal

/-! `serializer::dump` without pretty-printing, `ensure_ascii` off and the strict
error handler. The string buffer only chunks the output and is left out. The
decoder `utf8d` accepts well-formed UTF-8 and nothing else, and every byte of a
longer character is copied as it is. -/

namespace MxSdk.Json
open Utf8 Decimal

def utf8Accept : UInt8 := 0
def utf8Reject : UInt8 := 1

def utf8d : List UInt8 :=
  List.replicate 128 0 ++ List.replicate 16 1 ++ List.replicate 16 9 ++ List.replicate 32 7 ++
  List.replicate 2 8 ++ List.replicate 30 2 ++
  [0xA, 0x3, 0x3, 0x3, 0x3, 0x3, 0x3, 0x3, 0x3, 0x3, 0x3, 0x3, 0x3, 0x4, 0x3, 0x3,
   0xB, 0x6, 0x6, 0x6, 0x5, 0x8, 0x8, 0x8, 0x8, 0x8, 0x8, 0x8, 0x8, 0x8, 0x8, 0x8,
   0x0, 0x1, 0x2, 0x3, 0x5, 0x8, 0x7, 0x1, 0x1, 0x1, 0x4, 0x6, 0x1, 0x1, 0x1, 0x1,
   1, 1, 1, 1, 1, 1, 1, 1, 1, 1, 1, 1, 1, 1, 1, 1, 1, 0, 1, 1, 1, 1, 1, 0, 1, 0, 1, 1, 1, 1, 1, 1,
   1, 2, 1, 1, 1, 1, 1, 2, 1, 2, 1, 1, 1, 1, 1, 1, 1, 1, 1, 1, 1, 1, 1, 2, 1, 1, 1, 1, 1, 1, 1, 1,
   1, 2, 1, 1, 1, 1, 1, 1, 1, 2, 1, 1, 1, 1, 1, 1, 1, 1, 1, 1, 1, 1, 1, 3, 1, 3, 1, 1, 1, 1, 1, 1,
   1, 3, 1, 1, 1, 1, 1, 3, 1, 3, 1, 1, 1, 1, 1, 1, 1, 3, 1, 1, 1, 1, 1, 1, 1, 1, 1, 1, 1, 1, 1, 1]

def utf8Type (byte : UInt8) : UInt8 := utf8d.getD byte.toNat 0

def nextState (state byte : UInt8) : UInt8 :=
  utf8d.getD (256 + state.toNat * 16 + (utf8Type byte).toNat) 0

/-- The code point so far; at most four bytes enter it before it is used. -/
def nextCodepoint (state : UInt8) (codep : Nat) (byte : UInt8) : Nat :=
  if state ≠ utf8Accept then (byte.toNat &&& 0x3f) ||| (codep <<< 6)
  else (0xff >>> (utf8Type byte).toNat) &&& byte.toNat

def hexDigit (upper : Bool) (n : Nat) : UInt8 :=
  UInt8.ofNat (if n < 10 then 0x30 + n else if upper then 0x37 + n else 0x57 + n)

/-- `std::uppercase << std::setfill('0') << std::setw(2) << std::hex`. -/
def hex2 (byte : UInt8) : Bytes := [hexDigit true (byte.toNat / 16), hexDigit true (byte.toNat % 16)]

/-- `snprintf` with `%04x`. -/
def hex4 (n : Nat) : Bytes :=
  [hexDigit false (n / 4096 % 16), hexDigit false (n / 256 % 16), hexDigit false (n / 16 % 16),
    hexDigit false (n % 16)]

def quote : UInt8 := 0x22
def backslash : UInt8 := 0x5c

/-- What stands for a complete code point whose last byte is `byte`. -/
def escape (codepoint : Nat) (byte : UInt8) : Bytes :=
  if codepoint = 0x08 then [backslash, chr 'b']
  else if codepoint = 0x09 then [backslash, chr 't']
  else if codepoint = 0x0a then [backslash, chr 'n']
  else if codepoint = 0x0c then [backslash, chr 'f']
  else if codepoint = 0x0d then [backslash, chr 'r']
  else if codepoint = 0x22 then [backslash, quote]
  else if codepoint = 0x5c then [backslash, backslash]
  else if codepoint ≤ 0x1f then backslash :: chr 'u' :: hex4 codepoint
  else [byte]

def typeError316 (what : Bytes) : Exception :=
  .typeError 316 (ascii "[json.exception.type_error.316] " ++ what)

/-- The loop of `dump_escaped` from index `i`, where `last` is the byte before it. -/
def dumpEscapedFrom (i : Nat) (last state : UInt8) (codep : Nat) : Bytes → Except Exception Bytes
  | [] =>
    if state = utf8Accept then .ok []
    else throw (typeError316 (ascii "incomplete UTF-8 string; last byte: 0x" ++ hex2 last))
  | byte :: s =>
    let codep := nextCodepoint state codep byte
    let state := nextState state byte
    if state = utf8Reject then
      throw (typeError316 (ascii "invalid UTF-8 byte at index " ++ Decimal.decimal i ++
        ascii ": 0x" ++ hex2 byte))
    else do
      let rest ← dumpEscapedFrom (i + 1) byte state codep s
      .ok ((if state = utf8Accept then escape codep byte else [byte]) ++ rest)

def dumpEscaped (s : Bytes) : Except Exception Bytes := dumpEscapedFrom 0 0 utf8Accept 0 s

def digitsTo99 (n : Nat) : Bytes := [UInt8.ofNat (48 + n / 10), UInt8.ofNat (48 + n % 10)]

/-- The loop of `dump_integer`, which fills its buffer from the end. -/
def dumpAbs (absValue : Nat) (buffer : Bytes) : Bytes :=
  if 100 ≤ absValue then dumpAbs (absValue / 100) (digitsTo99 (absValue % 100) ++ buffer)
  else if 10 ≤ absValue then digitsTo99 absValue ++ buffer
  else UInt8.ofNat (48 + absValue) :: buffer

def removeSign (x : Int64) : UInt64 := (-(x + 1)).toUInt64 + 1

def dumpUnsigned (x : UInt64) : Bytes := if x = 0 then [chr '0'] else dumpAbs x.toNat []

def dumpSigned (x : Int64) : Bytes :=
  if x = 0 then [chr '0']
  else if x < 0 then chr '-' :: dumpAbs (removeSign x).toNat []
  else dumpAbs x.toUInt64.toNat []

section Dump
variable [Platform]

mutual
def dump : Json → Except Exception Bytes
  | null => .ok (ascii "null")
  | boolean b => .ok (if b then ascii "true" else ascii "false")
  | numberUnsigned n => .ok (dumpUnsigned n)
  | numberInteger n => .ok (dumpSigned n)
  | numberFloat x => .ok (Platform.toChars x.negative x.magnitude)
  | string s => do
    let t ← dumpEscaped s
    .ok (quote :: t ++ [quote])
  | array [] => .ok (ascii "[]")
  | array (x :: elements) => do
    let t ← dump x
    let rest ← dumpElements elements
    .ok (chr '[' :: t ++ rest)
  | object [] => .ok (ascii "\x7b\x7d")
  | object ((key, value) :: members) => do
    let k ← dumpEscaped key
    let t ← dump value
    let rest ← dumpMembers members
    .ok (chr '\x7b' :: quote :: k ++ quote :: chr ':' :: t ++ rest)

def dumpElements : List Json → Except Exception Bytes
  | [] => .ok [chr ']']
  | x :: elements => do
    let t ← dump x
    let rest ← dumpElements elements
    .ok (chr ',' :: t ++ rest)

def dumpMembers : List (Bytes × Json) → Except Exception Bytes
  | [] => .ok [chr '\x7d']
  | (key, value) :: members => do
    let k ← dumpEscaped key
    let t ← dump value
    let rest ← dumpMembers members
    .ok (chr ',' :: quote :: k ++ quote :: chr ':' :: t ++ rest)
end

end Dump

/-- The ranges a decoder state still waits for. -/
def owedBy : UInt8 → Option (List Range)
  | 0 => some []
  | 2 => some [tail]
  | 3 => some [tail, tail]
  | 4 => some [(0xa0, 0xbf), tail]
  | 5 => some [(0x80, 0x9f), tail]
  | 6 => some [(0x90, 0xbf), tail, tail]
  | 7 => some [tail, tail, tail]
  | 8 => some [(0x80, 0x8f), tail, tail]
  | _ => none

/-- The bits of a later byte of a character. -/
def payload (b : UInt8) : Nat := b.toNat &&& 0x3f

/-- The least code point that `codep` can grow to. -/
def least (codep : Nat) : List Range → Nat
  | [] => codep
  | r :: rs => least (codep * 64 + payload r.1) rs

theorem least_mono {c d : Nat} (h : c ≤ d) (rs : List Range) : least c rs ≤ least d rs := by
  induction rs generalizing c d with
  | nil => exact h
  | cons r rs ih =>
    rw [least, least]
    exact ih (Nat.add_le_add_right (Nat.mul_le_mul_right 64 h) _)

/-- The decoder waits for `rs`; inside a character its code point will not be ASCII. -/
structure Tracks (state : UInt8) (codep : Nat) (rs : List Range) : Prop where
  owed : owedBy state = some rs
  large : rs ≠ [] → 0x80 ≤ least codep rs

theorem state_lt_of_owed {state : UInt8} {rs : List Range} (h : owedBy state = some rs) :
    state.toNat < 9 := by
  have all : ∀ b, (owedBy b).isSome = true → b.toNat < 9 := forall_byte (by decide +kernel)
  exact all state (Option.isSome_of_eq_some h)

theorem owedBy_eq_nil {state : UInt8} (h : owedBy state = some []) : state = utf8Accept := by
  have all : ∀ n < 9, owedBy (UInt8.ofNat n) = some [] → UInt8.ofNat n = utf8Accept := by
    decide +kernel
  have hs := all state.toNat (state_lt_of_owed h)
  rw [UInt8.ofNat_toNat] at hs
  exact hs h

theorem nextState_none {b : UInt8} (h : followers b = none) :
    nextState utf8Accept b = utf8Reject := by
  have all : ∀ b, followers b = none → nextState utf8Accept b = utf8Reject :=
    forall_byte (by decide +kernel)
  exact all b h

theorem nextState_lead {b : UInt8} {rs : List Range} (h : followers b = some rs) (codep : Nat) :
    owedBy (nextState utf8Accept b) = some rs ∧
      (rs = [] → nextCodepoint utf8Accept codep b = b.toNat) ∧
      (rs ≠ [] → 0x80 ≤ b ∧ 0x80 ≤ least (nextCodepoint utf8Accept codep b) rs) := by
  have all : ∀ b, (followers b).all (fun rs => owedBy (nextState utf8Accept b) = some rs ∧
      (rs = [] → nextCodepoint utf8Accept 0 b = b.toNat) ∧
      (rs ≠ [] → 0x80 ≤ b ∧ 0x80 ≤ least (nextCodepoint utf8Accept 0 b) rs)) = true :=
    forall_byte (by decide +kernel)
  have hb := all b
  rw [h] at hb
  exact of_decide_eq_true hb

/-- A later byte of a character: it pays for the first range owed, or is rejected. -/
theorem nextState_owed {state : UInt8} {r : Range} {rs : List Range}
    (h : owedBy state = some (r :: rs)) (b : UInt8) :
    (state ≠ utf8Accept ∧ 0x80 ≤ r.1 ∧ r.2 ≤ 0xbf) ∧
      (r.Holds b → owedBy (nextState state b) = some rs) ∧
      (¬ r.Holds b → nextState state b = utf8Reject) := by
  have all : ∀ b, ∀ m < 9, (owedBy (UInt8.ofNat m)).all (fun rs => rs.head?.all fun r =>
      (UInt8.ofNat m ≠ utf8Accept ∧ 0x80 ≤ r.1 ∧ r.2 ≤ 0xbf) ∧
      (r.Holds b → owedBy (nextState (UInt8.ofNat m) b) = some rs.tail) ∧
      (¬ r.Holds b → nextState (UInt8.ofNat m) b = utf8Reject)) = true :=
    forall_byte (by decide +kernel)
  have hb := all b state.toNat (state_lt_of_owed h)
  rw [UInt8.ofNat_toNat, h] at hb
  exact of_decide_eq_true hb

theorem and_lowSix (n : Nat) : n &&& 0x3f = n % 2 ^ 6 :=
  Nat.and_two_pow_sub_one_eq_mod n 6

theorem toNat_eq_payload {b : UInt8} (hlow : 0x80 ≤ b) (hhigh : b ≤ 0xbf) :
    b.toNat = 0x80 + payload b := by
  have h1 : 0x80 ≤ b.toNat := UInt8.le_iff_toNat_le.mp hlow
  have h2 : b.toNat ≤ 0xbf := UInt8.le_iff_toNat_le.mp hhigh
  rw [payload, and_lowSix]
  omega

theorem payload_mono {b c : UInt8} (hb : 0x80 ≤ b) (h : b ≤ c) (hc : c ≤ 0xbf) :
    payload b ≤ payload c := by
  have hbc : b.toNat ≤ c.toNat := UInt8.le_iff_toNat_le.mp h
  rw [toNat_eq_payload hb (UInt8.le_trans h hc), toNat_eq_payload (UInt8.le_trans hb h) hc] at hbc
  exact Nat.le_of_add_le_add_left hbc

theorem nextCodepoint_owed {state : UInt8} (h : state ≠ utf8Accept) (codep : Nat) (b : UInt8) :
    nextCodepoint state codep b = codep * 64 + payload b := by
  have hlt : payload b < 2 ^ 6 := by
    rw [payload, and_lowSix]
    exact Nat.mod_lt _ (by decide)
  rw [nextCodepoint, if_pos h, Nat.or_comm, ← payload, ← Nat.shiftLeft_add_eq_or_of_lt hlt,
    Nat.shiftLeft_eq]

theorem Tracks.pay {state : UInt8} {codep : Nat} {r : Range} {rs : List Range}
    (h : Tracks state codep (r :: rs)) {b : UInt8} (hb : r.Holds b) :
    0x80 ≤ b ∧ 0x80 ≤ least (nextCodepoint state codep b) rs ∧
      Tracks (nextState state b) (nextCodepoint state codep b) rs := by
  obtain ⟨⟨hstate, hlow, hhigh⟩, hpay, -⟩ := nextState_owed h.owed b
  have hlarge := h.large (List.cons_ne_nil r rs)
  rw [least] at hlarge
  have hmono := payload_mono hlow hb.1 (UInt8.le_trans hb.2 hhigh)
  have hnext : 0x80 ≤ least (nextCodepoint state codep b) rs := by
    rw [nextCodepoint_owed hstate]
    exact hlarge.trans (least_mono (Nat.add_le_add_left hmono _) rs)
  exact ⟨UInt8.le_trans hlow hb.1, hnext, hpay hb, fun _ => hnext⟩

def escapeByte (b : UInt8) : Bytes := escape b.toNat b

theorem escape_of_large {codep : Nat} (h : 0x80 ≤ codep) (b : UInt8) : escape codep b = [b] := by
  rw [escape, if_neg (by omega), if_neg (by omega), if_neg (by omega), if_neg (by omega),
    if_neg (by omega), if_neg (by omega), if_neg (by omega), if_neg (by omega)]

theorem escapeByte_of_large {b : UInt8} (h : 0x80 ≤ b) : escapeByte b = [b] :=
  escape_of_large (UInt8.le_iff_toNat_le.mp h) b

theorem escapeByte_ne_nil (b : UInt8) : escapeByte b ≠ [] := by
  unfold escapeByte escape
  repeat' split
  all_goals exact List.cons_ne_nil _ _

theorem nextState_ne_reject {state b : UInt8} {rs : List Range}
    (h : owedBy (nextState state b) = some rs) : nextState state b ≠ utf8Reject := by
  intro hr
  rw [hr] at h
  cases h

theorem dumpEscapedFrom_ok {rs : List Range} {s : Bytes} (hs : Owing rs s) (i : Nat)
    (last : UInt8) {state : UInt8} {codep : Nat} (h : Tracks state codep rs) :
    dumpEscapedFrom i last state codep s = .ok (s.flatMap escapeByte) := by
  induction hs generalizing i last state codep with
  | done =>
    rw [dumpEscapedFrom, if_pos (owedBy_eq_nil h.owed)]
    rfl
  | @lead b rs s hb _ ih =>
    obtain rfl := owedBy_eq_nil h.owed
    obtain ⟨howed, hascii, hlong⟩ := nextState_lead hb codep
    have htracks : Tracks (nextState utf8Accept b) (nextCodepoint utf8Accept codep b) rs :=
      ⟨howed, fun hne => (hlong hne).2⟩
    have hwrite : (if nextState utf8Accept b = utf8Accept
        then escape (nextCodepoint utf8Accept codep b) b else [b]) = escapeByte b := by
      split
      · rename_i hacc
        rw [hacc] at howed
        rw [hascii (Option.some.inj howed).symm]
        rfl
      · rename_i hacc
        refine (escapeByte_of_large (hlong ?_).1).symm
        rintro rfl
        exact hacc (owedBy_eq_nil howed)
    rw [dumpEscapedFrom]
    simp only [if_neg (nextState_ne_reject howed), ih _ _ htracks, hwrite]
    rfl
  | @pay r b rs s hb _ ih =>
    obtain ⟨hhigh, hlarge, htracks⟩ := h.pay hb
    have hwrite : (if nextState state b = utf8Accept
        then escape (nextCodepoint state codep b) b else [b]) = escapeByte b := by
      rw [escapeByte_of_large hhigh]
      split
      · rename_i hacc
        have howed := htracks.owed
        rw [hacc] at howed
        obtain rfl : [] = rs := Option.some.inj howed
        exact escape_of_large hlarge b
      · rfl
    rw [dumpEscapedFrom]
    simp only [if_neg (nextState_ne_reject htracks.owed), ih _ _ htracks, hwrite]
    rfl

theorem tracks_start : Tracks utf8Accept 0 [] := ⟨rfl, fun h => absurd rfl h⟩

theorem dumpEscaped_ok {s : Bytes} (h : WellFormed s) :
    dumpEscaped s = .ok (s.flatMap escapeByte) :=
  dumpEscapedFrom_ok h 0 0 tracks_start

/-- Only well-formed texts are written, and the others raise `type_error` 316. -/
theorem dumpEscapedFrom_error {rs : List Range} {s : Bytes} (hs : ¬ Owing rs s) (i : Nat)
    (last : UInt8) {state : UInt8} {codep : Nat} (h : Tracks state codep rs) :
    ∃ what, dumpEscapedFrom i last state codep s = .error (.typeError 316 what) := by
  induction s generalizing i last state codep rs with
  | nil =>
    have hstate : state ≠ utf8Accept := by
      rintro rfl
      obtain rfl : [] = rs := Option.some.inj h.owed
      exact hs .done
    exact ⟨_, by rw [dumpEscapedFrom, if_neg hstate]; rfl⟩
  | cons b s ih =>
    have hstep {rs' : List Range} (hs' : ¬ Owing rs' s)
        (h' : Tracks (nextState state b) (nextCodepoint state codep b) rs') :
        ∃ what, dumpEscapedFrom i last state codep (b :: s) = .error (.typeError 316 what) := by
      obtain ⟨what, hwhat⟩ := ih hs' (i + 1) b h'
      refine ⟨what, ?_⟩
      rw [dumpEscapedFrom]
      simp only [if_neg (nextState_ne_reject h'.owed), hwhat]
      rfl
    have hreject (hr : nextState state b = utf8Reject) :
        ∃ what, dumpEscapedFrom i last state codep (b :: s) = .error (.typeError 316 what) :=
      ⟨_, by rw [dumpEscapedFrom]; simp only [if_pos hr]; rfl⟩
    cases rs with
    | nil =>
      obtain rfl := owedBy_eq_nil h.owed
      cases hb : followers b with
      | none => exact hreject (nextState_none hb)
      | some rs' =>
        obtain ⟨howed, -, hlong⟩ := nextState_lead hb codep
        exact hstep (fun h' => hs (.lead hb h')) ⟨howed, fun hne => (hlong hne).2⟩
    | cons r rs =>
      by_cases hb : r.Holds b
      · exact hstep (fun h' => hs (.pay hb h')) (h.pay hb).2.2
      · exact hreject ((nextState_owed h.owed b).2.2 hb)

theorem dumpEscaped_error {s : Bytes} (h : ¬ WellFormed s) :
    ∃ what, dumpEscaped s = .error (.typeError 316 what) :=
  dumpEscapedFrom_error h 0 0 tracks_start

theorem dumpEscaped_eq_ok {s t : Bytes} (h : dumpEscaped s = .ok t) :
    WellFormed s ∧ t = s.flatMap escapeByte := by
  by_cases hs : WellFormed s
  · rw [dumpEscaped_ok hs] at h
    exact ⟨hs, (Except.ok.inj h).symm⟩
  · obtain ⟨what, herr⟩ := dumpEscaped_error hs
    rw [herr] at h
    cases h

theorem ofNat_digit (d : Nat) : UInt8.ofNat (48 + d) = zero + UInt8.ofNat d := UInt8.ofNat_add 48 d

theorem dumpAbs_eq (n : Nat) (buffer : Bytes) : dumpAbs n buffer = decimal n ++ buffer := by
  induction n using Nat.strong_induction_on generalizing buffer with
  | _ n ih =>
    rw [dumpAbs]
    split
    · rw [ih (n / 100) (by omega), digitsTo99, ofNat_digit, ofNat_digit,
        decimal_step (n := n) (by omega),
        decimal_step (n := n / 10) (by omega), Nat.div_div_eq_div_mul,
        show n % 100 / 10 = n / 10 % 10 by omega, show n % 100 % 10 = n % 10 by omega]
      simp
    · split
      · rw [digitsTo99, ofNat_digit, ofNat_digit, decimal_step (by omega), decimal_digit (by omega)]
        rfl
      · rw [ofNat_digit, decimal_digit (by omega)]
        rfl

theorem dumpUnsigned_eq (x : UInt64) : dumpUnsigned x = decimal x.toNat := by
  rw [dumpUnsigned]
  split
  · rename_i h
    rw [h]
    rfl
  · rw [dumpAbs_eq, List.append_nil]

theorem toNat_removeSign {x : Int64} (h : x < 0) : (removeSign x).toNat = x.toInt.natAbs := by
  have hneg : x.toBitVec.toInt < 0 := Int64.lt_iff_toInt_lt.mp h
  have hlow := x.toBitVec.isLt
  have hb : (removeSign x).toBitVec = -x.toBitVec := by
    rw [removeSign, UInt64.toBitVec_add, Int64.toBitVec_toUInt64, Int64.toBitVec_neg,
      Int64.toBitVec_add, BitVec.neg_add]
    exact BitVec.sub_add_cancel _ 1
  rw [← UInt64.toNat_toBitVec, hb, BitVec.toNat_neg, ← Int64.toInt_toBitVec]
  rw [BitVec.toInt_eq_toNat_cond] at hneg ⊢
  split at hneg
  · omega
  · rw [if_neg (by assumption)]
    omega

theorem dumpSigned_of_neg {x : Int64} (h : x < 0) :
    dumpSigned x = chr '-' :: decimal x.toInt.natAbs := by
  have hne : x ≠ 0 := by
    rintro rfl
    exact absurd h (by decide)
  rw [dumpSigned, if_neg hne, if_pos h, dumpAbs_eq, toNat_removeSign h, List.append_nil]

end MxSdk.Json
