import JoseTokens.Error

namespace JoseTokens

inductive Format where
  | compact
  | flat
  | general
  deriving DecidableEq, Repr

namespace Format

def text : Format → String
  | .compact => "Compact"
  | .flat => "FlatJson"
  | .general => "GeneralJson"

def ofName? (name : String) : Option Format :=
  if name = "Compact" ∨ name = "JwsCompactJson" ∨ name = "JweCompactJson" then some .compact
  else if name = "FlatJson" ∨ name = "JwsFlatJson" ∨ name = "JweFlatJson" then some .flat
  else if name = "GeneralJson" ∨ name = "JwsGeneralJson" ∨ name = "JweGeneralJson" then
    some .general
  else none

def named (name : String) : Except Error Format :=
  match ofName? name with
  | some format => .ok format
  | none => .error (.unsupportedFormat name)

def isMultiParty : Format → Bool
  | .general => true
  | _ => false

end Format

end JoseTokens
