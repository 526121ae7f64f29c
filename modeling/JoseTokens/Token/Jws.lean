import JoseTokens.Engine.Operations
import JoseTokens.Token.Format
import JoseTokens.Token.Header

namespace JoseTokens

structure Signature where
  protectedHeader : Protected := {}
  header : Header := {}
  signature : Bytes
  deriving Repr

namespace Signature

def alg? (s : Signature) : Option String :=
  s.header.alg?.or s.protectedHeader.header.alg?

def kid? (s : Signature) : Option String :=
  s.header.kid?.or s.protectedHeader.header.kid?

def same (a b : Signature) : Bool :=
  a.protectedHeader.same b.protectedHeader && a.header.same b.header && a.signature == b.signature

end Signature

structure Jws where
  payload : Bytes := []
  signatures : List Signature := []
  deriving Repr

structure SignOptions where
  protectedHeader : Header := {}
  header : Header := {}
  deriving Repr

namespace Jws

def signingInput (p : Protected) (payload : Bytes) : Bytes :=
  Bytes.ofText (p.encoded ++ "." ++ Base64Url.encode payload)

def sameSignatures : List Signature → List Signature → Bool
  | [], [] => true
  | a :: as, b :: bs => a.same b && sameSignatures as bs
  | _, _ => false

def same (a b : Jws) : Bool :=
  a.payload == b.payload && sameSignatures a.signatures b.signatures

def signerHeader (alg : String) (kid : Option String) (extra : Header) : Header :=
  ((Header.insertText {} "alg" alg).insertText? "kid" kid).extend extra

variable {m : Type → Type} [Monad m] [MonadExceptOf Error m]

def signFault? (t : Jws) (format : Format) (options : SignOptions) : Option Error :=
  if !format.isMultiParty && !t.signatures.isEmpty then
    some (.tooManySignatures (t.signatures.length + 1))
  else if format == .compact && !options.header.isEmpty then some (.invalidArgument .compactHeader)
  else none

def sign (e : Engine m) (t : Jws) (reference : Reference) (format : Format)
    (options : SignOptions) : m Jws := do
  if let some fault := t.signFault? format options then throw fault
  let key ← liftResult (e.store.latest reference)
  let some alg := key.alg? | throw (.missingAlgorithm s!"key {reference.text}")
  let a ← liftResult (Algorithm.ofId alg)
  let protectedHeader := Protected.ofHeader (signerHeader alg key.kid? options.protectedHeader)
  let signature ← e.signKept a key reference (signingInput protectedHeader t.payload)
  let entry : Signature := { protectedHeader, header := options.header, signature }
  return { t with signatures := t.signatures ++ [entry] }

def payloadFor (t : Jws) : Option Bytes → Except Error Bytes
  | none => .ok t.payload
  | some payload =>
      if t.payload.isEmpty then .ok payload
      else if payload = t.payload then .ok t.payload
      else .error (.invalidArgument .otherPayload)

def isMismatch : Error → Bool
  | .invalidKey _ => true
  | .unsupportedCurve _ => true
  | _ => false

def matchesSome (e : Engine m) (alg : String) (signature input : Bytes) : List Jwk → m Bool
  | [] => pure false
  | key :: rest => do
      let found ← tryCatch (e.verify alg key signature input) fun error =>
        if isMismatch error then pure false else throw error
      if found then return true else matchesSome e alg signature input rest

def verifyEntries (e : Engine m) (candidates : List Jwk) (payload : Bytes) :
    Nat → Nat → List Signature → m Bool
  | _, verified, [] => pure (decide (0 < verified))
  | index, verified, entry :: rest => do
      let some alg := entry.alg? | throw (.missingAlgorithm s!"signature {index}")
      let input := signingInput entry.protectedHeader payload
      let found ← matchesSome e alg entry.signature input candidates
      if found then verifyEntries e candidates payload (index + 1) (verified + 1) rest
      else if e.config.verifyAllSignatures then return false
      else verifyEntries e candidates payload (index + 1) verified rest

def verify (e : Engine m) (t : Jws) (candidates : List Jwk) (payload : Option Bytes) : m Bool := do
  if t.signatures.isEmpty then throw (.malformedToken "signatures")
  let payload ← liftResult (t.payloadFor payload)
  verifyEntries e candidates payload 0 0 t.signatures

end Jws

end JoseTokens
