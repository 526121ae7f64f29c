import JoseTokens.Key.Jwk

namespace JoseTokens

namespace Text

def describeOption (text : Option String) : String :=
  match text with
  | some s => s!"Some({s})"
  | none => "None"

def describeBytes (bytes : Bytes) : String :=
  "[" ++ String.intercalate ", " (bytes.map fun b => toString b.toNat) ++ "]"

def describeFields (name : String) (fields : List (String × String)) : String :=
  name ++ " \x7b " ++
    String.intercalate ", " (fields.map fun (field, text) => field ++ ": " ++ text) ++ " \x7d"

def describeShown (name : String) (fields : List (String × String)) : String :=
  name ++ " \x7b " ++
    String.join (fields.map fun (field, text) => field ++ ": " ++ text ++ ", ") ++ ".. \x7d"

end Text

def HashName.description : HashName → String
  | .sha1 => "Sha1"
  | .sha256 => "Sha256"
  | .sha384 => "Sha384"
  | .sha512 => "Sha512"

def Curve.description : Curve → String
  | .secp256k1 => "Secp256k1"
  | .ed25519 => "Ed25519"

def Algorithm.description : Algorithm → String
  | .ecdsa curve hash =>
      Text.describeFields "Ecdsa" [("curve", curve.description), ("hash", hash.description)]
  | .eddsa curve => Text.describeFields "EdDsa" [("curve", curve.description)]
  | .rsaSignature hash => Text.describeFields "RsassaPkcs1V15" [("hash", hash.description)]
  | .rsaOaep hash => Text.describeFields "RsaOaep" [("hash", hash.description)]
  | .aesGcm bits iv aad tagBits =>
      Text.describeFields "AesGcm" [("length", toString bits), ("iv", Text.describeBytes iv),
        ("additional_data", Text.describeBytes aad), ("tag_length", toString tagBits)]
  | .hmac hash => Text.describeFields "Hmac" [("hash", hash.description)]
  | .digest hash => Text.describeFields "Digest" [("hash", hash.description)]

def Labels.description (labels : Labels) : String :=
  let optional (text : Option String) : String := Text.describeOption (text.map Text.quoted)
  Text.describeFields "KeyMetadata" [("kid", optional labels.kid), ("alg", optional labels.alg),
    ("key_use", optional labels.purpose)]

def EcPublic.description (labels : Labels) (key : EcPublic) : String :=
  Text.describeFields "EcPublicJwk" [("meta", labels.description),
    ("crv", Text.quoted key.curve), ("x", Text.describeBytes key.x),
    ("y", Text.describeBytes key.y)]

def RsaPublic.description (labels : Labels) (key : RsaPublic) : String :=
  Text.describeFields "RsaPublicJwk" [("meta", labels.description),
    ("n", Text.describeBytes key.n), ("e", Text.describeBytes key.e)]

def OkpPublic.description (labels : Labels) (key : OkpPublic) : String :=
  Text.describeFields "OkpPublicJwk" [("meta", labels.description),
    ("crv", Text.quoted key.curve), ("x", Text.describeBytes key.x)]

def describePrivate (name shown : String) : String :=
  Text.describeShown name [("public", shown)]

def Material.formName : Material → String
  | .ec _ none => "EcPublic"
  | .ec _ (some _) => "EcPrivate"
  | .rsa _ none => "RsaPublic"
  | .rsa _ (some _) => "RsaPrivate"
  | .okp _ none => "OkpPublic"
  | .okp _ (some _) => "OkpPrivate"
  | .oct _ => "Oct"

def Material.description (labels : Labels) : Material → String
  | .ec shown none => shown.description labels
  | .ec shown (some _) => describePrivate "EcPrivateJwk" (shown.description labels)
  | .rsa shown none => shown.description labels
  | .rsa shown (some _) => describePrivate "RsaPrivateJwk" (shown.description labels)
  | .okp shown none => shown.description labels
  | .okp shown (some _) => describePrivate "OkpPrivateJwk" (shown.description labels)
  | .oct k =>
      Text.describeShown "OctJwk" [("meta", labels.description), ("len", toString k.length)]

def Jwk.description (key : Jwk) : String :=
  key.material.formName ++ "(" ++ key.material.description key.labels ++ ")"

end JoseTokens
