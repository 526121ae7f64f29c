import JoseTokens.Crypto.Encryption
import JoseTokens.Crypto.Generation
import JoseTokens.Crypto.Signing

namespace JoseTokens

structure ImportedKey where
  binding : KeyBinding
  key : Jwk
  extractable : Bool
  deriving DecidableEq, Repr

structure Adapter (m : Type → Type) where
  name : String
  generateKey : KeyRequest → Entropy → m Jwk
  sign : Algorithm → ImportedKey → Bytes → m Bytes
  verify : Algorithm → ImportedKey → Bytes → Bytes → m Bool
  encrypt : Algorithm → ImportedKey → Entropy → Bytes → m Bytes
  decrypt : Algorithm → ImportedKey → Bytes → m Bytes
  digest : Algorithm → Bytes → m Bytes
  importKey : KeyBinding → Jwk → Bool → m ImportedKey
  exportKey : ImportedKey → m Jwk

def liftResult {m : Type → Type} [Monad m] [MonadExceptOf Error m] {α : Type} :
    Except Error α → m α
  | .ok a => pure a
  | .error e => throw e

namespace Software

def checkMaterial : Material → Except Error Unit
  | .ec shown none => shown.point.map fun _ => ()
  | .ec shown (some d) => (shown.scalar d).map fun _ => ()
  | .rsa shown none => shown.numbers.map fun _ => ()
  | .rsa shown (some secret) => (shown.privateNumbers secret).map fun _ => ()
  | .okp shown none => shown.point.map fun _ => ()
  | .okp shown (some d) => (shown.seed d).map fun _ => ()
  | .oct k => if k.isEmpty then .error (.invalidKey .emptySecret) else .ok ()

def checkCurve (binding : KeyBinding) (key : Jwk) : Except Error Unit :=
  match binding.curve, key.curve? with
  | some wanted, some name => requireCurve wanted name
  | _, _ => .ok ()

def importKey (binding : KeyBinding) (key : Jwk) (extractable : Bool) :
    Except Error ImportedKey := do
  if key.keyType ≠ binding.keyType then
    .error (.invalidKey (.otherImport binding.family binding.keyType key.keyType))
  else
    checkMaterial key.material
    checkCurve binding key
    return { binding, key, extractable }

def exportKey (imported : ImportedKey) : Except Error Jwk :=
  if imported.extractable then .ok imported.key else .error (.invalidKey .notExtractable)

def digest (a : Algorithm) (data : Bytes) : Except Error Bytes :=
  match a with
  | .digest hash => .ok (hash.digest data)
  | other => .error (.unsupportedAlgorithm s!"{other.family} is not a digest")

end Software

def Adapter.software {m : Type → Type} [Monad m] [MonadExceptOf Error m] : Adapter m where
  name := "software"
  generateKey request entropy := liftResult (request.generate entropy)
  sign a imported data := liftResult (a.sign imported.key data)
  verify a imported signature data := liftResult (a.verify imported.key signature data)
  encrypt a imported entropy data := liftResult (a.encrypt imported.key entropy data)
  decrypt a imported data := liftResult (a.decrypt imported.key data)
  digest a data := liftResult (Software.digest a data)
  importKey binding key extractable := liftResult (Software.importKey binding key extractable)
  exportKey imported := liftResult (Software.exportKey imported)

end JoseTokens
