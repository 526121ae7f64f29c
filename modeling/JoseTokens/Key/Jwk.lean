import JoseTokens.Error

namespace JoseTokens

structure Labels where
  kid : Option String := none
  alg : Option String := none
  purpose : Option String := none
  deriving DecidableEq, Repr

structure EcPublic where
  curve : String
  x : Bytes
  y : Bytes
  deriving DecidableEq, Repr

structure RsaPublic where
  n : Bytes
  e : Bytes
  deriving DecidableEq, Repr

structure RsaSecret where
  d : Bytes
  p : Bytes
  q : Bytes
  dp : Bytes
  dq : Bytes
  qi : Bytes
  deriving DecidableEq, Repr

structure OkpPublic where
  curve : String
  x : Bytes
  deriving DecidableEq, Repr

inductive Material where
  | ec (key : EcPublic) (d : Option Bytes)
  | rsa (key : RsaPublic) (secret : Option RsaSecret)
  | okp (key : OkpPublic) (d : Option Bytes)
  | oct (k : Bytes)
  deriving DecidableEq, Repr

namespace Material

def keyType : Material → KeyType
  | .ec _ _ => .ec
  | .rsa _ _ => .rsa
  | .okp _ _ => .okp
  | .oct _ => .oct

def isPrivate : Material → Bool
  | .ec _ d => d.isSome
  | .rsa _ secret => secret.isSome
  | .okp _ d => d.isSome
  | .oct _ => true

def curve? : Material → Option String
  | .ec key _ => some key.curve
  | .rsa _ _ => none
  | .okp key _ => some key.curve
  | .oct _ => none

def publicPart : Material → Material
  | .ec key _ => .ec key none
  | .rsa key _ => .rsa key none
  | .okp key _ => .okp key none
  | .oct k => .oct k

end Material

structure Jwk where
  labels : Labels := {}
  material : Material
  deriving DecidableEq, Repr

namespace Jwk

def oct (k : Bytes) : Jwk where
  material := .oct k

def keyType (key : Jwk) : KeyType :=
  key.material.keyType

def kid? (key : Jwk) : Option String :=
  key.labels.kid

def alg? (key : Jwk) : Option String :=
  key.labels.alg

def purpose? (key : Jwk) : Option String :=
  key.labels.purpose

def isPrivate (key : Jwk) : Bool :=
  key.material.isPrivate

def curve? (key : Jwk) : Option String :=
  key.material.curve?

def withKid (key : Jwk) (kid : String) : Jwk :=
  { key with labels := { key.labels with kid := some kid } }

def withAlg (key : Jwk) (alg : String) : Jwk :=
  { key with labels := { key.labels with alg := some alg } }

def withPurpose (key : Jwk) (purpose : String) : Jwk :=
  { key with labels := { key.labels with purpose := some purpose } }

def isSymmetric (key : Jwk) : Bool :=
  key.keyType == .oct

def toPublic (key : Jwk) : Except Error Jwk :=
  if key.isSymmetric then .error (.invalidKey .noPublicForm)
  else .ok { key with material := key.material.publicPart }

end Jwk

end JoseTokens
