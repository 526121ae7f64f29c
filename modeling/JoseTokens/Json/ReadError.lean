import JoseTokens.Decimal.Shortest
import JoseTokens.Text.Quoted

namespace JoseTokens.Json

inductive Found where
  | null
  | bool (value : Bool)
  | int (value : Int)
  | double (value : Double)
  | string (value : String)
  | sequence
  | map
  deriving DecidableEq, Repr

def Found.text : Found → String
  | .null => "null"
  | .bool true => "boolean `true`"
  | .bool false => "boolean `false`"
  | .int value => s!"integer `{value}`"
  | .double value => s!"floating point `{value.text}`"
  | .string value => s!"string {Text.quoted value}"
  | .sequence => "sequence"
  | .map => "map"

inductive ReadError where
  | endOfValue
  | endOfString
  | endOfList
  | endOfObject
  | expectedValue
  | expectedIdent
  | expectedColon
  | expectedCommaOrBrace
  | expectedCommaOrBracket
  | keyNotText
  | trailingComma
  | trailingCharacters
  | invalidNumber
  | numberOutOfRange
  | invalidEscape
  | invalidCodePoint
  | controlCharacter
  | loneSurrogate
  | endOfHexEscape
  | depthExceeded
  | wrongType (found : Found) (wanted : String)
  | outOfRange (found : Found) (wanted : String)
  | unknownVariant (found : String) (known : List String)
  | missingField (name : String)
  | duplicateField (name : String)
  | tooShort (length : Nat) (wanted : String)
  | tooLong (length : Nat)
  | refused (reason : String)
  deriving DecidableEq, Repr

def ticked (name : String) : String :=
  s!"`{name}`"

def alternatives : List String → String
  | [] => ""
  | [a] => "expected " ++ ticked a
  | [a, b] => "expected " ++ ticked a ++ " or " ++ ticked b
  | many => "expected one of " ++ String.intercalate ", " (many.map ticked)

def ReadError.message : ReadError → String
  | .endOfValue => "EOF while parsing a value"
  | .endOfString => "EOF while parsing a string"
  | .endOfList => "EOF while parsing a list"
  | .endOfObject => "EOF while parsing an object"
  | .expectedValue => "expected value"
  | .expectedIdent => "expected ident"
  | .expectedColon => "expected `:`"
  | .expectedCommaOrBrace => "expected `,` or `\x7d`"
  | .expectedCommaOrBracket => "expected `,` or `]`"
  | .keyNotText => "key must be a string"
  | .trailingComma => "trailing comma"
  | .trailingCharacters => "trailing characters"
  | .invalidNumber => "invalid number"
  | .numberOutOfRange => "number out of range"
  | .invalidEscape => "invalid escape"
  | .invalidCodePoint => "invalid unicode code point"
  | .controlCharacter => "control character (\\u0000-\\u001F) found while parsing a string"
  | .loneSurrogate => "lone leading surrogate in hex escape"
  | .endOfHexEscape => "unexpected end of hex escape"
  | .depthExceeded => "recursion limit exceeded"
  | .wrongType found wanted => s!"invalid type: {found.text}, expected {wanted}"
  | .outOfRange found wanted => s!"invalid value: {found.text}, expected {wanted}"
  | .unknownVariant found known => s!"unknown variant {ticked found}, {alternatives known}"
  | .missingField name => s!"missing field {ticked name}"
  | .duplicateField name => s!"duplicate field {ticked name}"
  | .tooShort length wanted => s!"invalid length {length}, expected {wanted}"
  | .tooLong length => s!"invalid length {length}, expected fewer elements in array"
  | .refused reason => reason

end JoseTokens.Json
