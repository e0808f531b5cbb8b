import MxSdk.Vendor.Json.Parser
import MxSdk.Vendor.Json.LexerSpec

/-! `parse` inverts `dump` on the values a text determines: no doubles, signed
integers below zero only (the others are read back as unsigned), and no key twice
in an object. The lexer lists the tokens of a value, and the parser builds the value
from them inside any stack of open containers. -/

namespace MxSdk.Json
open Utf8 Decimal

/-! Numbers. -/

/-- The input cannot go on with the number before it. -/
def Delimited (rest : Bytes) : Prop :=
  ∀ c ∈ rest.head?, isDigit c = false ∧ c ≠ chr '.' ∧ c ≠ chr 'e' ∧ c ≠ chr 'E'

theorem delimited_nil : Delimited [] := fun c hc => by cases hc

theorem takeWhile_delimited {ds rest : Bytes} (hd : ∀ c ∈ ds, isDigit c = true)
    (hr : Delimited rest) :
    (ds ++ rest).takeWhile isDigit = ds ∧ (ds ++ rest).dropWhile isDigit = rest := by
  induction ds with
  | nil =>
    cases rest with
    | nil => exact ⟨rfl, rfl⟩
    | cons c rest =>
      have hc := (hr c rfl).1
      simp only [List.nil_append, List.takeWhile_cons, List.dropWhile_cons, hc]
      exact ⟨rfl, rfl⟩
  | cons c ds ih =>
    have hc := hd c (by simp)
    obtain ⟨htake, hdrop⟩ := ih fun b hb => hd b (by simp [hb])
    simp only [List.cons_append, List.takeWhile_cons, List.dropWhile_cons, hc, if_true, htake,
      hdrop, and_self]

theorem scanNumberTail_delimited {rest : Bytes} (hr : Delimited rest) (t : NumberType)
    (buffer : Bytes) : scanNumberTail t buffer rest = (scanNumberDone t buffer, rest) := by
  cases rest with
  | nil => rfl
  | cons c rest =>
    obtain ⟨-, hdot, he, hE⟩ := hr c rfl
    rw [scanNumberTail, if_neg hdot, if_neg (not_or.mpr ⟨he, hE⟩)]

theorem scanNumberFirst_decimal {rest : Bytes} (hr : Delimited rest) (t : NumberType)
    (buffer : Bytes) (n : Nat) :
    scanNumberFirst t buffer (decimal n ++ rest) =
      (scanNumberDone t (buffer ++ decimal n), rest) := by
  cases hdec : decimal n with
  | nil => exact absurd hdec (decimal_ne_nil n)
  | cons c ds =>
    have hdigits : ∀ b ∈ c :: ds, isDigit b = true := fun b hb => decimal_isDigit (hdec ▸ hb)
    rw [List.cons_append, scanNumberFirst]
    by_cases hn : n = 0
    · rw [hn] at hdec
      obtain ⟨rfl, rfl⟩ := List.cons.inj hdec
      rw [if_pos (show zero = chr '0' from rfl), List.nil_append, scanNumberTail_delimited hr]
    · obtain ⟨htake, hdrop⟩ :=
        takeWhile_delimited (fun b hb => hdigits b (List.mem_cons_of_mem c hb)) hr
      rw [if_neg (show c ≠ chr '0' from decimal_head hn hdec),
        if_pos (hdigits c List.mem_cons_self), scanNumberAny1,
        htake, hdrop, scanNumberTail_delimited hr, List.append_assoc, List.singleton_append]

/-! Tokens. -/

theorem scan_of_nonspace {c : UInt8} (h : isWhitespace c = false) (rest : Bytes) :
    scan (c :: rest) = scanToken c rest := by
  rw [scan, List.dropWhile_cons, h]
  rfl

theorem isDigit_ne {c d : UInt8} (hc : isDigit c = true) (hd : isDigit d = false) : c ≠ d := by
  rintro rfl
  rw [hc] at hd
  cases hd

theorem isWhitespace_of_isDigit {c : UInt8} (h : isDigit c = true) : isWhitespace c = false := by
  have all : ∀ c, isDigit c = true → isWhitespace c = false := forall_byte (by decide +kernel)
  exact all c h

theorem scan_digit {c : UInt8} (h : isDigit c = true) (rest : Bytes) :
    scan (c :: rest) = scanNumberFirst .unsigned [] (c :: rest) := by
  have hne {d : UInt8} (hd : isDigit d = false) : c ≠ d := isDigit_ne h hd
  rw [scan_of_nonspace (isWhitespace_of_isDigit h), scanToken, if_neg (hne rfl), if_neg (hne rfl),
    if_neg (hne rfl), if_neg (hne rfl), if_neg (hne rfl), if_neg (hne rfl), if_neg (hne rfl),
    if_neg (hne rfl), if_neg (hne rfl), if_neg (hne rfl), if_pos (.inr h), scanNumber,
    if_neg (hne rfl)]

theorem scan_unsigned (n : UInt64) {rest : Bytes} (hr : Delimited rest) :
    scan (dumpUnsigned n ++ rest) = (.valueUnsigned n, rest) := by
  have hscan : scan (decimal n.toNat ++ rest) =
      scanNumberFirst .unsigned [] (decimal n.toNat ++ rest) := by
    cases hdec : decimal n.toNat with
    | nil => exact absurd hdec (decimal_ne_nil _)
    | cons c ds => exact scan_digit (decimal_isDigit (hdec ▸ List.mem_cons_self)) _
  rw [dumpUnsigned_eq, hscan, scanNumberFirst_decimal hr, List.nil_append, scanNumberDone,
    value_decimal]
  simp only [n.toNat_lt, if_true, UInt64.ofNat_toNat]

theorem scan_negative {n : Int64} (hn : n < 0) {rest : Bytes} (hr : Delimited rest) :
    scan (dumpSigned n ++ rest) = (.valueInteger n, rest) := by
  have hneg : n.toInt < 0 := Int64.lt_iff_toInt_lt.mp hn
  have hlow := Int64.le_toInt n
  have habs : (-(n.toInt.natAbs : Int)) = n.toInt := by omega
  have hscan (s : Bytes) : scan (chr '-' :: s) = scanNumberFirst .integer [chr '-'] s := rfl
  rw [dumpSigned_of_neg hn, List.cons_append, hscan, scanNumberFirst_decimal hr, scanNumberDone]
  simp only [List.cons_append, List.nil_append, List.tail_cons, value_decimal, habs]
  rw [if_pos hlow, Int64.ofInt_toInt]

theorem scan_string {s : Bytes} (h : WellFormed s) (rest : Bytes) :
    scan (quote :: (s.flatMap escapeByte ++ quote :: rest)) = (.valueString s, rest) := by
  rw [scan_of_nonspace rfl, scanToken, if_neg (by decide), if_neg (by decide), if_neg (by decide),
    if_neg (by decide), if_neg (by decide), if_neg (by decide), if_neg (by decide),
    if_neg (by decide), if_neg (by decide), if_pos rfl, scanString_escaped h]

mutual
def tokensOf : Json → List Token
  | null => [.literalNull]
  | boolean b => [if b then .literalTrue else .literalFalse]
  | numberUnsigned n => [.valueUnsigned n]
  | numberInteger n => [.valueInteger n]
  | numberFloat x => [.valueFloat (some x)]
  | string s => [.valueString s]
  | array [] => [.beginArray, .endArray]
  | array (x :: elements) => .beginArray :: (tokensOf x ++ tokensOfElements elements)
  | object [] => [.beginObject, .endObject]
  | object ((key, value) :: members) =>
    .beginObject :: .valueString key :: .nameSeparator :: (tokensOf value ++ tokensOfMembers members)

def tokensOfElements : List Json → List Token
  | [] => [.endArray]
  | x :: elements => .valueSeparator :: (tokensOf x ++ tokensOfElements elements)

def tokensOfMembers : List (Bytes × Json) → List Token
  | [] => [.endObject]
  | (key, value) :: members =>
    .valueSeparator :: .valueString key :: .nameSeparator ::
      (tokensOf value ++ tokensOfMembers members)
end

mutual
/-- The values that `dump` and `parse` keep apart. -/
def Canonical : Json → Prop
  | numberInteger n => n < 0
  | numberFloat _ => False
  | array elements => CanonicalElements elements
  | object members => (members.map Prod.fst).Nodup ∧ CanonicalMembers members
  | _ => True

def CanonicalElements : List Json → Prop
  | [] => True
  | x :: elements => Canonical x ∧ CanonicalElements elements

def CanonicalMembers : List (Bytes × Json) → Prop
  | [] => True
  | (_, value) :: members => Canonical value ∧ CanonicalMembers members
end

theorem canonicalMembers_of_forall {members : List (Bytes × Json)}
    (h : ∀ e ∈ members, Canonical e.2) : CanonicalMembers members := by
  induction members with
  | nil => trivial
  | cons e members ih =>
    exact ⟨h e List.mem_cons_self, ih fun f hf => h f (List.mem_cons_of_mem e hf)⟩

theorem tokens_skip (rest : Bytes) {token : Token} {input : Bytes} {ts : List Token}
    (h : scan input = (token, rest)) (hend : token ≠ .endOfInput) (herr : token ≠ .parseError)
    (hrest : tokens rest = ts) : tokens input = token :: ts := by
  rw [tokens_of_scan h hend herr, hrest]

theorem scanLiteral_append (literal : Bytes) (token : Token) (rest : Bytes) :
    scanLiteral literal token (literal ++ rest) = (token, rest) := by
  rw [scanLiteral, if_pos (List.isPrefixOf_iff_prefix.mpr (List.prefix_append literal rest)),
    List.drop_left]

theorem delimited_cons {c : UInt8}
    (h : isDigit c = false ∧ c ≠ chr '.' ∧ c ≠ chr 'e' ∧ c ≠ chr 'E') (t : Bytes) :
    Delimited (c :: t) := by
  intro d hd
  rw [← Option.some.inj hd]
  exact h

section Dump
variable [Platform]

theorem dump_element_ok {c : UInt8} {x : Json} {elements : List Json} {text : Bytes}
    (h : (do .ok (c :: (← dump x) ++ (← dumpElements elements))) = Except.ok text) :
    ∃ t u, dump x = .ok t ∧ dumpElements elements = .ok u ∧ text = c :: t ++ u := by
  obtain ⟨t, ht, h⟩ := bind_eq_ok h
  obtain ⟨u, hu, h⟩ := bind_eq_ok h
  exact ⟨t, u, ht, hu, (Except.ok.inj h).symm⟩

theorem dump_member_ok {c : UInt8} {key : Bytes} {value : Json} {members : List (Bytes × Json)}
    {text : Bytes} (h : (do
      let k ← dumpEscaped key
      let t ← dump value
      let rest ← dumpMembers members
      .ok (c :: quote :: k ++ quote :: chr ':' :: t ++ rest)) = Except.ok text) :
    ∃ k t u, dumpEscaped key = .ok k ∧ dump value = .ok t ∧ dumpMembers members = .ok u ∧
      text = c :: quote :: k ++ quote :: chr ':' :: t ++ u := by
  obtain ⟨k, hk, h⟩ := bind_eq_ok h
  obtain ⟨t, ht, h⟩ := bind_eq_ok h
  obtain ⟨u, hu, h⟩ := bind_eq_ok h
  exact ⟨k, t, u, hk, ht, hu, (Except.ok.inj h).symm⟩

theorem delimited_elements {elements : List Json} {text : Bytes}
    (h : dumpElements elements = .ok text) (rest : Bytes) : Delimited (text ++ rest) := by
  cases elements with
  | nil =>
    cases h
    exact delimited_cons (by decide) _
  | cons x elements =>
    obtain ⟨t, u, -, -, rfl⟩ := dump_element_ok h
    exact delimited_cons (by decide) _

theorem delimited_members {members : List (Bytes × Json)} {text : Bytes}
    (h : dumpMembers members = .ok text) (rest : Bytes) : Delimited (text ++ rest) := by
  cases members with
  | nil =>
    cases h
    exact delimited_cons (by decide) _
  | cons m members =>
    obtain ⟨k, t, u, -, -, -, rfl⟩ := dump_member_ok h
    exact delimited_cons (by decide) _

omit [Platform] in
theorem tokens_member {key k : Bytes} (hk : dumpEscaped key = .ok k) {input : Bytes}
    {ts : List Token} (hinput : tokens input = ts) :
    tokens (quote :: k ++ quote :: chr ':' :: input) = .valueString key :: .nameSeparator :: ts := by
  obtain ⟨hkey, rfl⟩ := dumpEscaped_eq_ok hk
  exact tokens_skip _ (scan_string hkey _) nofun nofun
    (tokens_skip input rfl nofun nofun hinput)

mutual
/-- The lexer lists the tokens of a dumped value. -/
theorem tokens_dump : ∀ {j : Json} {text : Bytes}, Canonical j → dump j = .ok text →
    ∀ {rest : Bytes}, Delimited rest → tokens (text ++ rest) = tokensOf j ++ tokens rest
  | null, text, _, h, rest, _ => by
    cases h
    exact tokens_skip _ (scanLiteral_append (ascii "ull") .literalNull rest) nofun nofun rfl
  | boolean true, text, _, h, rest, _ => by
    cases h
    exact tokens_skip _ (scanLiteral_append (ascii "rue") .literalTrue rest) nofun nofun rfl
  | boolean false, text, _, h, rest, _ => by
    cases h
    exact tokens_skip _ (scanLiteral_append (ascii "alse") .literalFalse rest) nofun nofun rfl
  | numberUnsigned n, text, _, h, rest, hr => by
    cases h
    exact tokens_skip _ (scan_unsigned n hr) nofun nofun rfl
  | numberInteger n, text, hc, h, rest, hr => by
    cases h
    exact tokens_skip _ (scan_negative hc hr) nofun nofun rfl
  | numberFloat x, text, hc, h, rest, hr => hc.elim
  | string s, text, _, h, rest, _ => by
    obtain ⟨t, ht, h⟩ := bind_eq_ok h
    obtain ⟨hs, rfl⟩ := dumpEscaped_eq_ok ht
    cases h
    simp only [List.cons_append, List.append_assoc, List.nil_append]
    exact tokens_skip _ (scan_string hs rest) nofun nofun rfl
  | array [], text, _, h, rest, _ => by
    cases h
    exact tokens_skip (chr ']' :: rest) rfl nofun nofun (tokens_skip _ rfl nofun nofun rfl)
  | array (x :: elements), text, hc, h, rest, _ => by
    obtain ⟨t, u, ht, hu, rfl⟩ := dump_element_ok h
    rw [List.cons_append, List.cons_append, List.append_assoc, tokensOf, List.cons_append,
      List.append_assoc]
    refine tokens_skip (t ++ (u ++ rest)) rfl nofun nofun ?_
    rw [tokens_dump hc.1 ht (delimited_elements hu rest), tokens_dumpElements hc.2 hu]
  | object [], text, _, h, rest, _ => by
    cases h
    exact tokens_skip (chr '\x7d' :: rest) rfl nofun nofun (tokens_skip _ rfl nofun nofun rfl)
  | object ((key, value) :: members), text, hc, h, rest, _ => by
    obtain ⟨k, t, u, hk, ht, hu, rfl⟩ := dump_member_ok h
    have hvalue : tokens (t ++ (u ++ rest)) =
        tokensOf value ++ (tokensOfMembers members ++ tokens rest) := by
      rw [tokens_dump hc.2.1 ht (delimited_members hu rest), tokens_dumpMembers hc.2.2 hu]
    have hmember := tokens_member hk hvalue
    simp only [List.cons_append, List.append_assoc, tokensOf] at hmember ⊢
    exact tokens_skip _ rfl nofun nofun hmember

theorem tokens_dumpElements : ∀ {elements : List Json} {text : Bytes}, CanonicalElements elements →
    dumpElements elements = .ok text → ∀ {rest : Bytes},
      tokens (text ++ rest) = tokensOfElements elements ++ tokens rest
  | [], text, _, h, rest => by
    cases h
    exact tokens_skip _ rfl nofun nofun rfl
  | x :: elements, text, hc, h, rest => by
    obtain ⟨t, u, ht, hu, rfl⟩ := dump_element_ok h
    rw [List.cons_append, List.cons_append, List.append_assoc, tokensOfElements, List.cons_append,
      List.append_assoc]
    refine tokens_skip (t ++ (u ++ rest)) rfl nofun nofun ?_
    rw [tokens_dump hc.1 ht (delimited_elements hu rest), tokens_dumpElements hc.2 hu]

theorem tokens_dumpMembers : ∀ {members : List (Bytes × Json)} {text : Bytes},
    CanonicalMembers members → dumpMembers members = .ok text → ∀ {rest : Bytes},
      tokens (text ++ rest) = tokensOfMembers members ++ tokens rest
  | [], text, _, h, rest => by
    cases h
    exact tokens_skip _ rfl nofun nofun rfl
  | (key, value) :: members, text, hc, h, rest => by
    obtain ⟨k, t, u, hk, ht, hu, rfl⟩ := dump_member_ok h
    have hvalue : tokens (t ++ (u ++ rest)) =
        tokensOf value ++ (tokensOfMembers members ++ tokens rest) := by
      rw [tokens_dump hc.1 ht (delimited_members hu rest), tokens_dumpMembers hc.2 hu]
    have hmember := tokens_member hk hvalue
    simp only [List.cons_append, List.append_assoc, tokensOfMembers] at hmember ⊢
    exact tokens_skip _ rfl nofun nofun hmember
end

end Dump

/-! The parser on the tokens of a value. -/

theorem tokensOf_head (j : Json) : ∃ t ts, tokensOf j = t :: ts ∧ t ≠ .endArray := by
  cases j with
  | array elements => cases elements <;> exact ⟨_, _, rfl, nofun⟩
  | object members => cases members <;> exact ⟨_, _, rfl, nofun⟩
  | boolean b => cases b <;> exact ⟨_, _, rfl, nofun⟩
  | _ => exact ⟨_, _, rfl, nofun⟩

theorem not_mem_of_nodup {done members : List (Bytes × Json)} {key : Bytes} {value : Json}
    (h : ((done ++ (key, value) :: members).map Prod.fst).Nodup) : key ∉ done.map Prod.fst := by
  rw [List.map_append, List.map_cons] at h
  exact fun hmem => List.nodup_append.mp h |>.2.2 key hmem key List.mem_cons_self rfl

mutual
theorem parseValue_tokensOf : ∀ {j : Json}, Canonical j → ∀ (stack : List Frame) (ts : List Token),
    parseValue stack (tokensOf j ++ ts) = parseState stack j ts
  | null, _, _, _ => rfl
  | boolean true, _, _, _ => rfl
  | boolean false, _, _, _ => rfl
  | numberUnsigned _, _, _, _ => rfl
  | numberInteger _, _, _, _ => rfl
  | numberFloat _, hc, _, _ => hc.elim
  | string _, _, _, _ => rfl
  | array [], _, _, _ => rfl
  | array (x :: elements), hc, stack, ts => by
    have hx := parseValue_tokensOf hc.1 (.array [] :: stack) (tokensOfElements elements ++ ts)
    obtain ⟨t, ts', hhead, ht⟩ := tokensOf_head x
    rw [hhead, List.cons_append] at hx
    rw [tokensOf, List.cons_append, List.append_assoc, hhead, List.cons_append,
      parseValue_beginArray ht, hx, parseState_elements hc.2, List.nil_append]
  | object [], _, _, _ => rfl
  | object ((key, value) :: members), hc, stack, ts => by
    rw [tokensOf, List.cons_append, List.cons_append, List.cons_append, List.append_assoc,
      parseValue, parseValue_tokensOf hc.2.1, parseState_members hc.2.2 [] key value hc.1,
      List.nil_append]

theorem parseState_elements : ∀ {elements : List Json}, CanonicalElements elements →
    ∀ (done : List Json) (x : Json) (stack : List Frame) (ts : List Token),
      parseState (.array done :: stack) x (tokensOfElements elements ++ ts) =
        parseState stack (.array (done ++ x :: elements)) ts
  | [], _, done, x, stack, ts => rfl
  | y :: elements, hc, done, x, stack, ts => by
    rw [tokensOfElements, List.cons_append, List.append_assoc, parseState,
      parseValue_tokensOf hc.1, parseState_elements hc.2, List.append_assoc, List.singleton_append]

theorem parseState_members : ∀ {members : List (Bytes × Json)}, CanonicalMembers members →
    ∀ (done : List (Bytes × Json)) (key : Bytes) (value : Json),
      ((done ++ (key, value) :: members).map Prod.fst).Nodup →
      ∀ (stack : List Frame) (ts : List Token),
        parseState (.object done key :: stack) value (tokensOfMembers members ++ ts) =
          parseState stack (.object (done ++ (key, value) :: members)) ts
  | [], _, done, key, value, hn, stack, ts => by
    have hkey : key ∉ done.map Prod.fst := not_mem_of_nodup hn
    rw [tokensOfMembers, List.cons_append, List.nil_append, parseState,
      OrderedMap.assign_of_not_mem hkey]
  | (next, v) :: members, hc, done, key, value, hn, stack, ts => by
    have hkey : key ∉ done.map Prod.fst := not_mem_of_nodup hn
    have hsplit : done ++ (key, value) :: (next, v) :: members =
        (done ++ [(key, value)]) ++ (next, v) :: members := by simp
    rw [tokensOfMembers, List.cons_append, List.cons_append, List.cons_append, List.append_assoc,
      parseState, OrderedMap.assign_of_not_mem hkey, parseValue_tokensOf hc.1, hsplit]
    exact parseState_members hc.2 _ next v (hsplit ▸ hn) stack ts
end

/-! The whole text. -/

section Text
variable [Platform]

theorem dump_head {j : Json} {text : Bytes} (hc : Canonical j) (h : dump j = .ok text) :
    ∃ c t, text = c :: t ∧ c ≠ 0xef := by
  have hdigit (n : Nat) : ∃ c t, decimal n = c :: t ∧ c ≠ 0xef := by
    cases hdec : decimal n with
    | nil => exact absurd hdec (decimal_ne_nil n)
    | cons c t => exact ⟨c, t, rfl, isDigit_ne (decimal_isDigit (hdec ▸ List.mem_cons_self)) rfl⟩
  cases j with
  | null =>
    cases h
    exact ⟨_, _, rfl, by decide⟩
  | boolean b =>
    cases h
    cases b <;> exact ⟨_, _, rfl, by decide⟩
  | numberUnsigned n =>
    cases h
    rw [dumpUnsigned_eq]
    exact hdigit _
  | numberInteger n =>
    cases h
    rw [dumpSigned_of_neg hc]
    exact ⟨_, _, rfl, by decide⟩
  | numberFloat x => exact hc.elim
  | string s =>
    obtain ⟨t, -, h⟩ := bind_eq_ok h
    cases h
    exact ⟨_, _, rfl, by decide⟩
  | array elements =>
    cases elements with
    | nil =>
      cases h
      exact ⟨_, _, rfl, by decide⟩
    | cons x elements =>
      obtain ⟨t, u, -, -, rfl⟩ := dump_element_ok h
      exact ⟨_, _, rfl, by decide⟩
  | object members =>
    cases members with
    | nil =>
      cases h
      exact ⟨_, _, rfl, by decide⟩
    | cons m members =>
      obtain ⟨k, t, u, -, -, -, rfl⟩ := dump_member_ok h
      exact ⟨_, _, rfl, by decide⟩

theorem tokenStream_dump {j : Json} {text : Bytes} (hc : Canonical j) (h : dump j = .ok text) :
    tokenStream text = tokens text := by
  obtain ⟨c, t, rfl, hne⟩ := dump_head hc h
  unfold tokenStream
  split
  · rename_i heq
    exact absurd (List.cons.inj heq).1 hne
  · rfl

/-- `parse` inverts `dump`. -/
theorem parse_dump {j : Json} {text : Bytes} (hc : Canonical j) (h : dump j = .ok text) :
    parse text = some j := by
  have htokens := tokens_dump hc h delimited_nil
  have hend : tokens [] = [.endOfInput] := by
    rw [tokens]
    rfl
  rw [List.append_nil, hend] at htokens
  rw [parse, tokenStream_dump hc h, htokens, parseValue_tokensOf hc]
  rfl

theorem dump_inj {j k : Json} {text : Bytes} (hj : Canonical j) (hk : Canonical k)
    (hdj : dump j = .ok text) (hdk : dump k = .ok text) : j = k := by
  have hparse := parse_dump hj hdj
  rw [parse_dump hk hdk] at hparse
  exact (Option.some.inj hparse).symm

/-! The size of an object. -/

omit [Platform] in
theorem length_dumpEscaped {s t : Bytes} (h : dumpEscaped s = .ok t) : s.length ≤ t.length := by
  obtain ⟨-, rfl⟩ := dumpEscaped_eq_ok h
  clear h
  induction s with
  | nil => exact Nat.le_refl _
  | cons b s ih =>
    have hpos : 1 ≤ (escapeByte b).length := List.length_pos_iff.mpr (escapeByte_ne_nil b)
    rw [List.flatMap_cons, List.length_append, List.length_cons]
    omega

/-- The key of a member, with its quotes, the colon and the bracket or comma before. -/
def keyLength (e : Bytes × Json) : Nat := e.1.length + 4

theorem length_dumpMembers : ∀ {members : List (Bytes × Json)} {text : Bytes},
    dumpMembers members = .ok text → (members.map keyLength).sum < text.length
  | [], text, h => by
    cases h
    exact Nat.one_pos
  | (key, value) :: members, text, h => by
    obtain ⟨k, t, u, hk, ht, hu, rfl⟩ := dump_member_ok h
    have hkey := length_dumpEscaped hk
    have hrest := length_dumpMembers hu
    simp only [List.map_cons, List.sum_cons, keyLength, List.length_append, List.length_cons]
    omega

theorem dump_object {e : Bytes × Json} {members : List (Bytes × Json)} {text : Bytes}
    (h : dump (.object (e :: members)) = .ok text) :
    text.head? = some (chr '\x7b') ∧ ((e :: members).map keyLength).sum < text.length := by
  obtain ⟨k, t, u, hk, ht, hu, rfl⟩ := dump_member_ok h
  refine ⟨rfl, ?_⟩
  have hkey := length_dumpEscaped hk
  have hrest := length_dumpMembers hu
  simp only [List.map_cons, List.sum_cons, keyLength, List.length_append, List.length_cons]
  omega

end Text

end MxSdk.Json
