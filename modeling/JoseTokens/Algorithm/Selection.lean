import JoseTokens.Key.Description

namespace JoseTokens

structure CipherInputs where
  iv : Option Bytes := none
  aad : Option Bytes := none
  deriving DecidableEq, Repr

structure KeyBinding where
  family : String
  keyType : KeyType
  curve : Option Curve
  hash : Option HashName
  deriving DecidableEq, Repr

def Curve.named (name : String) : Except Error Curve :=
  match ofName? name with
  | some curve => .ok curve
  | none => .error (.unsupportedCurve name)

def Capability.named (name : String) : Except Error Capability :=
  match ofName? name with
  | some capability => .ok capability
  | none => .error (.unsupportedAlgorithm name)

namespace Algorithm

def ofId (id : String) (inputs : CipherInputs := {}) : Except Error Algorithm :=
  match contentBits? id with
  | some bits =>
      match inputs.iv, inputs.aad with
      | none, _ => .error (.invalidArgument (.noIv id))
      | some _, none => .error (.invalidArgument (.noAad id))
      | some iv, some aad => .ok (.aesGcm bits iv aad tagBits)
  | none =>
      match plain? id with
      | some a => .ok a
      | none => .error (.unsupportedAlgorithm id)

def toId (a : Algorithm) : Except Error String :=
  match a.id? with
  | some id => .ok id
  | none => .error (.unsupportedAlgorithm a.description)

def capability (a : Algorithm) : Capability :=
  .ofAlgorithm a

def needs? : Algorithm → Option (KeyType × Option Curve)
  | .ecdsa curve _ => some (.ec, some curve)
  | .eddsa curve => some (.okp, some curve)
  | .rsaSignature _ => some (.rsa, none)
  | .rsaOaep _ => some (.rsa, none)
  | .aesGcm _ _ _ _ => some (.oct, none)
  | .hmac _ => some (.oct, none)
  | .digest _ => none

def boundHash? : Algorithm → Option HashName
  | .ecdsa _ hash => some hash
  | .eddsa _ => none
  | .rsaSignature hash => some hash
  | .rsaOaep hash => some hash
  | .aesGcm _ _ _ _ => none
  | .hmac hash => some hash
  | .digest _ => none

def curveFault? (a : Algorithm) (wanted : Curve) : Option String → Option KeyFault
  | none => some .noCurve
  | some name =>
      match Curve.ofName? name with
      | none => some (.otherCurve a.family wanted name)
      | some curve =>
          if curve = wanted then none else some (.otherCurve a.family wanted curve.text)

def misfit? (a : Algorithm) (key : Jwk) : Option KeyFault :=
  match a, key.material with
  | .ecdsa curve _, _ => a.curveFault? curve key.curve?
  | .eddsa curve, _ => a.curveFault? curve key.curve?
  | .aesGcm bits _ _ _, .oct k =>
      if k.length * 8 = bits then none else some (.secretLength bits k.length)
  | _, _ => none

def bind (a : Algorithm) (key : Jwk) : Except Error KeyBinding :=
  match a.needs? with
  | none => .error (.invalidArgument .keyForDigest)
  | some (keyType, curve) =>
      if key.keyType ≠ keyType then
        .error (.invalidKey (.otherType a.family keyType key.keyType))
      else match a.misfit? key with
        | some fault => .error (.invalidKey fault)
        | none => .ok { family := a.family, keyType, curve, hash := a.boundHash? }

end Algorithm

end JoseTokens
