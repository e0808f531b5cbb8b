import MxSdk.Vendor.Json.Lexer

/-! `parser::parse` in strict mode with the DOM handler. The loop keeps a stack of
the containers it is inside, each with what it holds so far; the flag that skips to
the state evaluation is the choice between the two functions below. A key that
occurs again assigns to the member that is there. Any error is the exception that
the caller turns into its own, so it is `none` here. -/

namespace MxSdk.Json

inductive Frame where
  | array (elements : List Json)
  /-- `key` is the one whose value comes next. -/
  | object (members : List (Bytes × Json)) (key : Bytes)

mutual
/-- The switch on the token at the start of a value. -/
def parseValue (stack : List Frame) : List Token → Option Json
  | .beginObject :: .endObject :: ts => parseState stack (.object []) ts
  | .beginObject :: .valueString key :: .nameSeparator :: ts =>
    parseValue (.object [] key :: stack) ts
  | .beginArray :: .endArray :: ts => parseState stack (.array []) ts
  | .beginArray :: ts => parseValue (.array [] :: stack) ts
  | .valueFloat (some x) :: ts => parseState stack (.numberFloat x) ts
  | .literalFalse :: ts => parseState stack (.boolean false) ts
  | .literalNull :: ts => parseState stack .null ts
  | .literalTrue :: ts => parseState stack (.boolean true) ts
  | .valueInteger n :: ts => parseState stack (.numberInteger n) ts
  | .valueString s :: ts => parseState stack (.string s) ts
  | .valueUnsigned n :: ts => parseState stack (.numberUnsigned n) ts
  | _ => none

/-- After `value` was parsed: the container it goes into, or the end of the text. -/
def parseState : List Frame → Json → List Token → Option Json
  | [], value, .endOfInput :: _ => some value
  | .array elements :: stack, value, .valueSeparator :: ts =>
    parseValue (.array (elements ++ [value]) :: stack) ts
  | .array elements :: stack, value, .endArray :: ts =>
    parseState stack (.array (elements ++ [value])) ts
  | .object members key :: stack, value, .valueSeparator :: .valueString next :: .nameSeparator :: ts =>
    parseValue (.object (OrderedMap.assign key value members) next :: stack) ts
  | .object members key :: stack, value, .endObject :: ts =>
    parseState stack (.object (OrderedMap.assign key value members)) ts
  | _, _, _ => none
end

def parse (text : Bytes) : Option Json := parseValue [] (tokenStream text)

theorem parseValue_beginArray {t : Token} (ht : t ≠ .endArray) (stack : List Frame)
    (ts : List Token) :
    parseValue stack (.beginArray :: t :: ts) = parseValue (.array [] :: stack) (t :: ts) := by
  cases t with
  | endArray => exact absurd rfl ht
  | _ => rfl

end MxSdk.Json
