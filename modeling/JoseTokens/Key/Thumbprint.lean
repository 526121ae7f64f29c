import JoseTokens.Key.Form

namespace JoseTokens.Jwk

def essentials (material : Material) : List (String × Json) :=
  match material with
  | .ec key _ =>
      [("crv", .string key.curve), ("kty", .string KeyType.ec.text), octets "x" key.x,
        octets "y" key.y]
  | .rsa key _ => [octets "e" key.e, ("kty", .string KeyType.rsa.text), octets "n" key.n]
  | .okp key _ =>
      [("crv", .string key.curve), ("kty", .string KeyType.okp.text), octets "x" key.x]
  | .oct k => [octets "k" k, ("kty", .string KeyType.oct.text)]

def canonical (key : Jwk) : String :=
  (Json.object (essentials key.material)).compact

def thumbprint (key : Jwk) : String :=
  Base64Url.encode (HashName.sha256.digest (Bytes.ofText key.canonical))

end JoseTokens.Jwk
