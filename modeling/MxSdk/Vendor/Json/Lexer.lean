import MxSdk.Vendor.Json.Serializer

/-! The lexer of nlohmann json. Each `scan` reads one token and returns it with the
input that is left; what is left after an error is never read. A NUL byte ends the
input as its real end does. The lexer keeps no state that depends on the parser, so
the tokens of a text are listed up front. -/

namespace MxSdk.Json
open Utf8 Decimal

inductive Token where
  | literalTrue
  | literalFalse
  | literalNull
  | valueString (s : Bytes)
  | valueUnsigned (n : UInt64)
  | valueInteger (n : Int64)
  /-- `none` for a number whose double is not finite. -/
  | valueFloat (x : Option Double)
  | beginArray
  | beginObject
  | endArray
  | endObject
  | nameSeparator
  | valueSeparator
  | parseError
  | endOfInput
  deriving DecidableEq

def hexDigitValue (c : UInt8) : Option Nat :=
  if chr '0' ≤ c ∧ c ≤ chr '9' then some (c.toNat - 0x30)
  else if chr 'A' ≤ c ∧ c ≤ chr 'F' then some (c.toNat - 0x37)
  else if chr 'a' ≤ c ∧ c ≤ chr 'f' then some (c.toNat - 0x57)
  else none

def getCodepoint : Bytes → Option (Nat × Bytes)
  | c₃ :: c₂ :: c₁ :: c₀ :: rest => do
    let d₃ ← hexDigitValue c₃
    let d₂ ← hexDigitValue c₂
    let d₁ ← hexDigitValue c₁
    let d₀ ← hexDigitValue c₀
    some (d₃ * 4096 + d₂ * 256 + d₁ * 16 + d₀, rest)
  | _ => none

def encodeCodepoint (codepoint : Nat) : Bytes :=
  if codepoint < 0x80 then [UInt8.ofNat codepoint]
  else if codepoint ≤ 0x7ff then
    [UInt8.ofNat (0xc0 ||| codepoint >>> 6), UInt8.ofNat (0x80 ||| codepoint &&& 0x3f)]
  else if codepoint ≤ 0xffff then
    [UInt8.ofNat (0xe0 ||| codepoint >>> 12), UInt8.ofNat (0x80 ||| codepoint >>> 6 &&& 0x3f),
      UInt8.ofNat (0x80 ||| codepoint &&& 0x3f)]
  else
    [UInt8.ofNat (0xf0 ||| codepoint >>> 18), UInt8.ofNat (0x80 ||| codepoint >>> 12 &&& 0x3f),
      UInt8.ofNat (0x80 ||| codepoint >>> 6 &&& 0x3f), UInt8.ofNat (0x80 ||| codepoint &&& 0x3f)]

/-- After `\u`. A high surrogate must be followed by the escape of a low one. -/
def scanUnicode (input : Bytes) : Option (Bytes × Bytes) := do
  let (codepoint1, rest) ← getCodepoint input
  if 0xd800 ≤ codepoint1 ∧ codepoint1 ≤ 0xdbff then
    match rest with
    | b :: u :: rest =>
      if b = backslash ∧ u = chr 'u' then do
        let (codepoint2, rest) ← getCodepoint rest
        if 0xdc00 ≤ codepoint2 ∧ codepoint2 ≤ 0xdfff then
          some (encodeCodepoint (codepoint1 * 1024 + codepoint2 - 0x35fdc00), rest)
        else none
      else none
    | _ => none
  else if 0xdc00 ≤ codepoint1 ∧ codepoint1 ≤ 0xdfff then none
  else some (encodeCodepoint codepoint1, rest)

def scanEscape : Bytes → Option (Bytes × Bytes)
  | [] => none
  | c :: rest =>
    if c = quote then some ([quote], rest)
    else if c = backslash then some ([backslash], rest)
    else if c = chr '/' then some ([chr '/'], rest)
    else if c = chr 'b' then some ([0x08], rest)
    else if c = chr 'f' then some ([0x0c], rest)
    else if c = chr 'n' then some ([0x0a], rest)
    else if c = chr 'r' then some ([0x0d], rest)
    else if c = chr 't' then some ([0x09], rest)
    else if c = chr 'u' then scanUnicode rest
    else none

def nextByteInRange : List Range → Bytes → Option (Bytes × Bytes)
  | [], rest => some ([], rest)
  | _ :: _, [] => none
  | r :: ranges, c :: rest =>
    if r.Holds c then do
      let (s, rest) ← nextByteInRange ranges rest
      some (c :: s, rest)
    else none

/-- The ranges that `scan_string` checks after a byte, `none` for a byte it rejects. -/
def stringRanges (c : UInt8) : Option (List Range) :=
  if c ≤ 0x1f then none
  else if c ≤ 0x7f then some []
  else if 0xc2 ≤ c ∧ c ≤ 0xdf then some [(0x80, 0xbf)]
  else if c = 0xe0 then some [(0xa0, 0xbf), (0x80, 0xbf)]
  else if (0xe1 ≤ c ∧ c ≤ 0xec) ∨ c = 0xee ∨ c = 0xef then some [(0x80, 0xbf), (0x80, 0xbf)]
  else if c = 0xed then some [(0x80, 0x9f), (0x80, 0xbf)]
  else if c = 0xf0 then some [(0x90, 0xbf), (0x80, 0xbf), (0x80, 0xbf)]
  else if 0xf1 ≤ c ∧ c ≤ 0xf3 then some [(0x80, 0xbf), (0x80, 0xbf), (0x80, 0xbf)]
  else if c = 0xf4 then some [(0x80, 0x8f), (0x80, 0xbf), (0x80, 0xbf)]
  else none

/-- One character of a string, or one escape. -/
def scanCharacter (c : UInt8) (rest : Bytes) : Option (Bytes × Bytes) :=
  if c = backslash then scanEscape rest
  else do
    let ranges ← stringRanges c
    let (s, rest) ← nextByteInRange ranges rest
    some (c :: s, rest)

theorem getCodepoint_length {input rest : Bytes} {n : Nat}
    (h : getCodepoint input = some (n, rest)) :
    rest.length < input.length := by
  unfold getCodepoint at h
  split at h
  · simp only [bind, Option.bind_eq_some_iff, Option.some.injEq, Prod.mk.injEq] at h
    obtain ⟨-, -, -, -, -, -, -, -, -, rfl⟩ := h
    simp only [List.length_cons]
    omega
  · cases h

theorem scanUnicode_length {input s rest : Bytes} (h : scanUnicode input = some (s, rest)) :
    rest.length < input.length := by
  simp only [scanUnicode, bind, Option.bind_eq_some_iff] at h
  obtain ⟨⟨n, mid⟩, hmid, h⟩ := h
  have hlen := getCodepoint_length hmid
  dsimp only at h
  split at h
  · split at h
    · split at h
      · simp only [Option.bind_eq_some_iff] at h
        obtain ⟨⟨n', low⟩, hlow, h⟩ := h
        have hlen' := getCodepoint_length hlow
        dsimp only at h
        split at h
        · obtain ⟨-, rfl⟩ := Prod.mk.inj (Option.some.inj h)
          simp only [List.length_cons] at hlen
          omega
        · cases h
      · cases h
    · cases h
  · split at h
    · cases h
    · obtain ⟨-, rfl⟩ := Prod.mk.inj (Option.some.inj h)
      exact hlen

theorem scanEscape_length {input s rest : Bytes} (h : scanEscape input = some (s, rest)) :
    rest.length < input.length := by
  cases input with
  | nil => cases h
  | cons c input =>
    rw [scanEscape] at h
    simp only [List.length_cons]
    iterate 8
      split at h
      · cases h
        omega
    split at h
    · have := scanUnicode_length h
      omega
    · cases h

theorem nextByteInRange_length {ranges : List Range} {input s rest : Bytes}
    (h : nextByteInRange ranges input = some (s, rest)) : rest.length ≤ input.length := by
  induction ranges generalizing input s with
  | nil =>
    cases h
    exact le_rfl
  | cons r ranges ih =>
    cases input with
    | nil => cases h
    | cons c input =>
      rw [nextByteInRange] at h
      split at h
      · simp only [bind, Option.bind_eq_some_iff] at h
        obtain ⟨⟨s', rest'⟩, hnext, h⟩ := h
        obtain ⟨-, rfl⟩ := Prod.mk.inj (Option.some.inj h)
        exact (ih hnext).trans (Nat.le_succ _)
      · cases h

theorem scanCharacter_length {c : UInt8} {input s rest : Bytes}
    (h : scanCharacter c input = some (s, rest)) : rest.length ≤ input.length := by
  unfold scanCharacter at h
  split at h
  · exact (scanEscape_length h).le
  · simp only [bind, Option.bind_eq_some_iff] at h
    obtain ⟨ranges, -, ⟨s', rest'⟩, hnext, h⟩ := h
    cases h
    exact nextByteInRange_length hnext

/-- After the opening quote: the string and what follows its closing quote. -/
def scanString : Bytes → Option (Bytes × Bytes)
  | [] => none
  | c :: input =>
    if c = quote then some ([], input)
    else
      match h : scanCharacter c input with
      | none => none
      | some (s, rest) =>
        have := scanCharacter_length h
        match scanString rest with
        | none => none
        | some (t, rest) => some (s ++ t, rest)
termination_by input => input.length

/-- `base ^ e` for an exponent of either sign. -/
def scale (base : ℚ) (e : Int) : ℚ := if 0 ≤ e then base ^ e.toNat else 1 / base ^ (-e).toNat

/-- The exponent of the greatest power of two that is at most `x`. -/
def ilog2 (x : ℚ) : Int :=
  let e : Int := x.num.natAbs.log2 - x.den.log2
  if x < scale 2 e then e - 1 else e

def roundHalfEven (x : ℚ) : Int :=
  let n := x.floor
  if x - n < 1 / 2 ∨ (x - n = 1 / 2 ∧ n % 2 = 0) then n else n + 1

/-- The nearest double of a magnitude, ties to even, `none` for infinity. -/
def nearestDouble (x : ℚ) : Option ℚ :=
  if x = 0 then some 0
  else
    let unit := scale 2 (max (ilog2 x - 52) (-1074))
    let y := roundHalfEven (x / unit) * unit
    if y < scale 2 1024 then some y else none

/-- `std::strtod` on a text the scanner has checked. -/
def strtod (buffer : Bytes) : Option Double :=
  let negative := buffer.head? = some (chr '-')
  let s := if negative then buffer.tail else buffer
  let whole := s.takeWhile isDigit
  let s := s.dropWhile isDigit
  let fraction := if s.head? = some (chr '.') then s.tail.takeWhile isDigit else []
  let s := if s.head? = some (chr '.') then s.tail.dropWhile isDigit else s
  let exponent : Int := match s.tail with
    | [] => 0
    | c :: ds =>
      if c = chr '-' then -value ds else if c = chr '+' then value ds else value (c :: ds)
  let magnitude := value (whole ++ fraction) * scale 10 (exponent - fraction.length)
  (nearestDouble magnitude).map fun x => ⟨negative, x⟩

inductive NumberType where
  | unsigned
  | integer
  | float

/-- `scan_number_done`: integers that do not fit fall back to a double. -/
def scanNumberDone (numberType : NumberType) (buffer : Bytes) : Token :=
  match numberType with
  | .unsigned =>
    let x := value buffer
    if x < 2 ^ 64 then .valueUnsigned (UInt64.ofNat x) else .valueFloat (strtod buffer)
  | .integer =>
    let x : Int := -value buffer.tail
    if -2 ^ 63 ≤ x then .valueInteger (Int64.ofInt x) else .valueFloat (strtod buffer)
  | .float => .valueFloat (strtod buffer)

def scanNumberAny2 (buffer input : Bytes) : Token × Bytes :=
  (scanNumberDone .float (buffer ++ input.takeWhile isDigit), input.dropWhile isDigit)

def scanNumberSign (buffer : Bytes) : Bytes → Token × Bytes
  | [] => (.parseError, [])
  | c :: rest => if isDigit c then scanNumberAny2 (buffer ++ [c]) rest else (.parseError, rest)

def scanNumberExponent (buffer : Bytes) : Bytes → Token × Bytes
  | [] => (.parseError, [])
  | c :: rest =>
    if c = chr '+' ∨ c = chr '-' then scanNumberSign (buffer ++ [c]) rest
    else if isDigit c then scanNumberAny2 (buffer ++ [c]) rest
    else (.parseError, rest)

def scanNumberDecimal2 (buffer input : Bytes) : Token × Bytes :=
  let buffer := buffer ++ input.takeWhile isDigit
  match input.dropWhile isDigit with
  | [] => (scanNumberDone .float buffer, [])
  | c :: rest =>
    if c = chr 'e' ∨ c = chr 'E' then scanNumberExponent (buffer ++ [c]) rest
    else (scanNumberDone .float buffer, c :: rest)

def scanNumberDecimal1 (buffer : Bytes) : Bytes → Token × Bytes
  | [] => (.parseError, [])
  | c :: rest => if isDigit c then scanNumberDecimal2 (buffer ++ [c]) rest else (.parseError, rest)

/-- Where `scan_number_zero` and `scan_number_any1` go after the digits they read. -/
def scanNumberTail (numberType : NumberType) (buffer : Bytes) : Bytes → Token × Bytes
  | [] => (scanNumberDone numberType buffer, [])
  | c :: rest =>
    if c = chr '.' then scanNumberDecimal1 (buffer ++ [c]) rest
    else if c = chr 'e' ∨ c = chr 'E' then scanNumberExponent (buffer ++ [c]) rest
    else (scanNumberDone numberType buffer, c :: rest)

def scanNumberAny1 (numberType : NumberType) (buffer input : Bytes) : Token × Bytes :=
  scanNumberTail numberType (buffer ++ input.takeWhile isDigit) (input.dropWhile isDigit)

def scanNumberFirst (numberType : NumberType) (buffer : Bytes) : Bytes → Token × Bytes
  | [] => (.parseError, [])
  | c :: rest =>
    if c = chr '0' then scanNumberTail numberType (buffer ++ [c]) rest
    else if isDigit c then scanNumberAny1 numberType (buffer ++ [c]) rest
    else (.parseError, rest)

def scanNumber (c : UInt8) (rest : Bytes) : Token × Bytes :=
  if c = chr '-' then scanNumberFirst .integer [c] rest else scanNumberFirst .unsigned [] (c :: rest)

def isWhitespace (c : UInt8) : Bool :=
  c = chr ' ' || c = chr '\t' || c = chr '\n' || c = chr '\r'

def scanLiteral (literal : Bytes) (token : Token) (input : Bytes) : Token × Bytes :=
  if literal.isPrefixOf input then (token, input.drop literal.length) else (.parseError, [])

/-- The switch of `scan` on the character after the whitespace. -/
def scanToken (c : UInt8) (rest : Bytes) : Token × Bytes :=
  if c = chr '[' then (.beginArray, rest)
  else if c = chr ']' then (.endArray, rest)
  else if c = chr '\x7b' then (.beginObject, rest)
  else if c = chr '\x7d' then (.endObject, rest)
  else if c = chr ':' then (.nameSeparator, rest)
  else if c = chr ',' then (.valueSeparator, rest)
  else if c = chr 't' then scanLiteral (ascii "rue") .literalTrue rest
  else if c = chr 'f' then scanLiteral (ascii "alse") .literalFalse rest
  else if c = chr 'n' then scanLiteral (ascii "ull") .literalNull rest
  else if c = quote then
    match scanString rest with
    | none => (.parseError, [])
    | some (s, rest) => (.valueString s, rest)
  else if c = chr '-' ∨ isDigit c then scanNumber c rest
  else if c = 0 then (.endOfInput, rest)
  else (.parseError, rest)

def scan (input : Bytes) : Token × Bytes :=
  match input.dropWhile isWhitespace with
  | [] => (.endOfInput, [])
  | c :: rest => scanToken c rest

theorem scanString_induction {motive : Bytes → Bytes → Bytes → Prop}
    (done : ∀ input, motive (quote :: input) [] input)
    (character : ∀ {c input s mid t rest}, scanCharacter c input = some (s, mid) →
      motive mid t rest → motive (c :: input) (s ++ t) rest)
    {input s rest : Bytes} (h : scanString input = some (s, rest)) : motive input s rest := by
  induction hn : input.length using Nat.strong_induction_on generalizing input s with
  | _ n ih =>
    cases input with
    | nil =>
      rw [scanString] at h
      cases h
    | cons c input =>
      rw [scanString] at h
      rw [List.length_cons] at hn
      split at h
      · rename_i hc
        cases h
        exact hc ▸ done _
      · split at h
        · cases h
        · rename_i s' mid hmid
          have hlen := scanCharacter_length hmid
          split at h
          · cases h
          · rename_i t rest' hrest
            obtain ⟨rfl, rfl⟩ := Prod.mk.inj (Option.some.inj h)
            exact character hmid (ih mid.length (by omega) hrest rfl)

theorem scanString_length {input s rest : Bytes} (h : scanString input = some (s, rest)) :
    rest.length < input.length := by
  refine scanString_induction (motive := fun input _ rest => rest.length < input.length)
    (fun input => Nat.lt_succ_self _) (fun hscan ih => ?_) h
  exact ih.trans (Nat.lt_succ_of_le (scanCharacter_length hscan))

/-- What the number scanner returns: a token that is no string, and a part of the input. -/
structure NumberScan (input : Bytes) (r : Token × Bytes) : Prop where
  length : r.2.length ≤ input.length
  noString : ∀ s, r.1 ≠ .valueString s

theorem NumberScan.cons {input : Bytes} {r : Token × Bytes} (h : NumberScan input r) (c : UInt8) :
    NumberScan (c :: input) r :=
  ⟨h.length.trans (Nat.le_succ _), h.noString⟩

theorem NumberScan.error (input : Bytes) : NumberScan input (.parseError, input) :=
  ⟨le_rfl, nofun⟩

theorem scanNumberDone_noString (t : NumberType) (buffer s : Bytes) :
    scanNumberDone t buffer ≠ .valueString s := by
  cases t with
  | float => exact nofun
  | _ =>
    rw [scanNumberDone]
    split
    · exact nofun
    · exact nofun

section Number
variable (t : NumberType) (buffer input : Bytes)

theorem scanNumberDone_scan {rest : Bytes} (h : rest.length ≤ input.length) :
    NumberScan input (scanNumberDone t buffer, rest) := ⟨h, scanNumberDone_noString t buffer⟩

theorem scanNumberAny2_scan : NumberScan input (scanNumberAny2 buffer input) :=
  scanNumberDone_scan _ _ _ (List.dropWhile_suffix _).length_le

theorem scanNumberSign_scan : NumberScan input (scanNumberSign buffer input) := by
  unfold scanNumberSign
  split
  · exact .error []
  · split
    · exact (scanNumberAny2_scan _ _).cons _
    · exact (NumberScan.error _).cons _

theorem scanNumberExponent_scan : NumberScan input (scanNumberExponent buffer input) := by
  unfold scanNumberExponent
  split
  · exact .error []
  · split
    · exact (scanNumberSign_scan _ _).cons _
    · split
      · exact (scanNumberAny2_scan _ _).cons _
      · exact (NumberScan.error _).cons _

theorem scanNumberDecimal2_scan : NumberScan input (scanNumberDecimal2 buffer input) := by
  have hdrop := (List.dropWhile_suffix (l := input) isDigit).length_le
  unfold scanNumberDecimal2
  dsimp only
  split
  · exact scanNumberDone_scan _ _ _ (Nat.zero_le _)
  · rename_i c rest hrest
    rw [hrest] at hdrop
    split
    · have hexp := scanNumberExponent_scan (buffer ++ input.takeWhile isDigit ++ [c]) rest
      exact ⟨(hexp.cons c).length.trans hdrop, hexp.noString⟩
    · exact scanNumberDone_scan _ _ _ hdrop

theorem scanNumberDecimal1_scan : NumberScan input (scanNumberDecimal1 buffer input) := by
  unfold scanNumberDecimal1
  split
  · exact .error []
  · split
    · exact (scanNumberDecimal2_scan _ _).cons _
    · exact (NumberScan.error _).cons _

theorem scanNumberTail_scan : NumberScan input (scanNumberTail t buffer input) := by
  unfold scanNumberTail
  split
  · exact scanNumberDone_scan _ _ _ le_rfl
  · split
    · exact (scanNumberDecimal1_scan _ _).cons _
    · split
      · exact (scanNumberExponent_scan _ _).cons _
      · exact scanNumberDone_scan _ _ _ le_rfl

theorem scanNumberFirst_scan (c : UInt8) :
    NumberScan input (scanNumberFirst t buffer (c :: input)) := by
  rw [scanNumberFirst]
  split
  · exact scanNumberTail_scan _ _ _
  · split
    · have htail := scanNumberTail_scan t (buffer ++ [c] ++ input.takeWhile isDigit)
        (input.dropWhile isDigit)
      exact ⟨htail.length.trans (List.dropWhile_suffix _).length_le, htail.noString⟩
    · exact .error _

theorem scanNumber_scan (c : UInt8) : NumberScan input (scanNumber c input) := by
  rw [scanNumber]
  split
  · cases input with
    | nil => exact .error []
    | cons d input => exact (scanNumberFirst_scan _ _ _ _).cons _
  · exact scanNumberFirst_scan _ _ _ _

end Number

structure TokenScan (input : Bytes) (r : Token × Bytes) : Prop where
  length : r.2.length ≤ input.length
  string : ∀ s, r.1 = .valueString s → ∃ rest, scanString input = some (s, rest)

theorem NumberScan.token {input : Bytes} {r : Token × Bytes} (h : NumberScan input r) :
    TokenScan input r :=
  ⟨h.length, fun s hs => absurd hs (h.noString s)⟩

theorem scanLiteral_scan (literal input : Bytes) {token : Token}
    (h : ∀ s, token ≠ .valueString s) : TokenScan input (scanLiteral literal token input) := by
  rw [scanLiteral]
  split
  · exact ⟨by rw [List.length_drop]; omega, fun s hs => absurd hs (h s)⟩
  · exact ⟨Nat.zero_le _, nofun⟩

theorem TokenScan.ite {p : Prop} [Decidable p] {input : Bytes} {a b : Token × Bytes}
    (ha : TokenScan input a) (hb : TokenScan input b) :
    TokenScan input (if p then a else b) := by
  split
  · exact ha
  · exact hb

theorem scanToken_scan (c : UInt8) (input : Bytes) : TokenScan input (scanToken c input) := by
  have hmark {token : Token} (h : ∀ s, token ≠ .valueString s) : TokenScan input (token, input) :=
    ⟨le_rfl, fun s hs => absurd hs (h s)⟩
  have hstring : TokenScan input (match scanString input with
      | none => (.parseError, [])
      | some (s, rest) => (.valueString s, rest)) := by
    split
    · exact ⟨Nat.zero_le _, nofun⟩
    · rename_i s rest hs
      exact ⟨(scanString_length hs).le, fun s' hs' => ⟨rest, by rw [hs, Token.valueString.inj hs']⟩⟩
  exact .ite (hmark nofun) <| .ite (hmark nofun) <| .ite (hmark nofun) <| .ite (hmark nofun) <|
    .ite (hmark nofun) <| .ite (hmark nofun) <| .ite (scanLiteral_scan _ _ nofun) <|
    .ite (scanLiteral_scan _ _ nofun) <| .ite (scanLiteral_scan _ _ nofun) <| .ite hstring <|
    .ite (scanNumber_scan input c).token <| .ite (hmark nofun) (hmark nofun)

theorem scan_length {input rest : Bytes} {token : Token} (h : scan input = (token, rest))
    (hend : token ≠ .endOfInput) : rest.length < input.length := by
  have hdrop := (List.dropWhile_suffix (l := input) isWhitespace).length_le
  unfold scan at h
  split at h
  · cases h
    exact absurd rfl hend
  · rename_i c mid hmid
    have hlen := (scanToken_scan c mid).length
    rw [h] at hlen
    rw [hmid, List.length_cons] at hdrop
    exact Nat.lt_of_le_of_lt hlen (Nat.lt_of_succ_le hdrop)

/-- The tokens of an input, up to its end or to the first error. -/
def tokens (input : Bytes) : List Token :=
  match h : scan input with
  | (token, rest) =>
    if hlast : token = .endOfInput ∨ token = .parseError then [token]
    else
      have := scan_length h fun hend => hlast (.inl hend)
      token :: tokens rest
termination_by input.length

/-- The first call of `scan` skips a byte order mark. -/
def tokenStream : Bytes → List Token
  | 0xef :: rest =>
    match rest with
    | 0xbb :: 0xbf :: rest => tokens rest
    | _ => [.parseError]
  | input => tokens input

theorem tokens_of_scan {input rest : Bytes} {token : Token} (h : scan input = (token, rest))
    (hend : token ≠ .endOfInput) (herr : token ≠ .parseError) :
    tokens input = token :: tokens rest := by
  rw [tokens]
  split
  rename_i token' rest' h'
  rw [h] at h'
  cases h'
  rw [dif_neg (not_or.mpr ⟨hend, herr⟩)]

end MxSdk.Json
