import JoseTokens.Config

namespace JoseTokens

inductive KeyRequest where
  | ecdsa (curve : String)
  | eddsa
  | rsa (algorithm : String) (modulusBits : Option Nat)
  | secret (algorithm : String)
  deriving DecidableEq, Repr

namespace KeyRequest

def family : KeyRequest → String
  | .ecdsa _ => "ECDSA"
  | .eddsa => "EdDSA"
  | .rsa algorithm _ =>
      if "RSA-OAEP".toList.isPrefixOf algorithm.toList then "RSA-OAEP" else "RSASSA-PKCS1-v1_5"
  | .secret algorithm => if "HS".toList.isPrefixOf algorithm.toList then "HMAC" else "AES-GCM"

def algorithm : KeyRequest → String
  | .ecdsa _ => "ES256K"
  | .eddsa => "EdDSA"
  | .rsa algorithm _ => algorithm
  | .secret algorithm => algorithm

def purpose (r : KeyRequest) : String :=
  if r.family = "RSA-OAEP" ∨ r.family = "AES-GCM" then "enc" else "sig"

def withDefaults (r : KeyRequest) (config : Config) : KeyRequest :=
  match r with
  | .rsa algorithm none => .rsa algorithm (some config.modulusBits)
  | other => other

def defaultModulusBits : Nat := 2048

def publicExponent : Nat := 65537

def secretSize? (algorithm : String) : Option Nat :=
  match algorithm with
  | "A128GCM" => some 16
  | "A192GCM" => some 24
  | "A256GCM" => some 32
  | "HS256" => some 32
  | "HS384" => some 48
  | "HS512" => some 64
  | _ => none

end KeyRequest

end JoseTokens
