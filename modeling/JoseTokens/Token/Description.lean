import JoseTokens.Token.Jwe

namespace JoseTokens

namespace Json

def describeNumber (text : String) : String :=
  "Number(" ++ text ++ ")"

mutual

def describe : Json → String
  | .null => "Null"
  | .bool b => "Bool(" ++ toString b ++ ")"
  | .int n => describeNumber (toString n)
  | .double x => describeNumber x.text
  | .string s => "String(" ++ Text.quoted s ++ ")"
  | .array items => "Array [" ++ describeItems items ++ "]"
  | .object members => "Object \x7b" ++ describeMembers members ++ "\x7d"

def describeItems : List Json → String
  | [] => ""
  | [item] => describe item
  | item :: rest => describe item ++ ", " ++ describeItems rest

def describeMembers : List (String × Json) → String
  | [] => ""
  | [(name, value)] => Text.quoted name ++ ": " ++ describe value
  | (name, value) :: rest =>
      Text.quoted name ++ ": " ++ describe value ++ ", " ++ describeMembers rest

end

end Json

def Header.description (h : Header) : String :=
  "Header(\x7b" ++ Json.describeMembers h.members ++ "\x7d)"

def EncryptOptions.description (o : EncryptOptions) : String :=
  Text.describeFields "JweEncryptOptions" [
    ("content_encryption", Text.describeOption (o.enc.map Text.quoted)),
    ("protected", o.protectedHeader.description),
    ("unprotected", o.unprotected.description),
    ("aad", Text.describeOption (o.aad.map Text.describeBytes)),
    ("content_key", Text.describeOption (o.contentKey.map fun _ => Text.quoted "[REDACTED]")),
    ("iv", Text.describeOption (o.iv.map Text.describeBytes))]

end JoseTokens
