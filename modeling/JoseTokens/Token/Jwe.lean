import JoseTokens.Engine.Operations
import JoseTokens.Token.Format
import JoseTokens.Token.Header

namespace JoseTokens

structure Recipient where
  header : Header := {}
  encryptedKey : Bytes
  deriving Repr

def Recipient.same (a b : Recipient) : Bool :=
  a.header.same b.header && a.encryptedKey == b.encryptedKey

structure Jwe where
  protectedHeader : Protected := {}
  unprotected : Header := {}
  iv : Bytes := []
  aad : Bytes := []
  ciphertext : Bytes := []
  tag : Bytes := []
  recipients : List Recipient := []
  deriving Repr

structure EncryptOptions where
  enc : Option String := none
  protectedHeader : Header := {}
  unprotected : Header := {}
  aad : Option Bytes := none
  contentKey : Option Bytes := none
  iv : Option Bytes := none
  deriving Repr

namespace Jwe

def sameRecipients : List Recipient → List Recipient → Bool
  | [], [] => true
  | a :: as, b :: bs => a.same b && sameRecipients as bs
  | _, _ => false

def same (a b : Jwe) : Bool :=
  a.protectedHeader.same b.protectedHeader && a.unprotected.same b.unprotected && a.iv == b.iv &&
    a.aad == b.aad && a.ciphertext == b.ciphertext && a.tag == b.tag &&
    sameRecipients a.recipients b.recipients

def algOf? (t : Jwe) (r : Recipient) : Option String :=
  (r.header.alg?.or t.unprotected.alg?).or t.protectedHeader.header.alg?

def kidOf? (t : Jwe) (r : Recipient) : Option String :=
  r.header.kid?.or
    (if t.recipients.length = 1 then t.unprotected.kid?.or t.protectedHeader.header.kid? else none)

def missing? (t : Jwe) : Option String :=
  if t.ciphertext.isEmpty then some "ciphertext"
  else if t.iv.isEmpty then some "iv"
  else if t.recipients.isEmpty then some "recipients"
  else (t.recipients.findIdx? fun r => r.encryptedKey.isEmpty).map
    fun index => s!"encrypted_key for recipient {index}"

def check (t : Jwe) : Except Error Unit :=
  match t.missing? with
  | some part => .error (.malformedToken part)
  | none => .ok ()

def isValid (t : Jwe) : Bool :=
  t.missing?.isNone && t.recipients.all fun r => (t.algOf? r).isSome

def authenticatedData (p : Protected) (aad : Bytes) : Bytes :=
  if aad.isEmpty then Bytes.ofText p.encoded
  else Bytes.ofText (p.encoded ++ "." ++ Base64Url.encode aad)

variable {m : Type → Type} [Monad m] [MonadExceptOf Error m]

def encryptFault? (recipients : List Jwk) (payload : Bytes) (format : Format)
    (options : EncryptOptions) : Option Error :=
  if recipients.isEmpty then some (.invalidArgument .noRecipients)
  else if payload.isEmpty then some (.invalidArgument .emptyPayload)
  else if !format.isMultiParty && decide (1 < recipients.length) then
    some (.tooManyRecipients recipients.length)
  else if format == .compact && (!options.unprotected.isEmpty || options.aad.isSome) then
    some (.invalidArgument .compactExtras)
  else none

def requireCapability (wanted : Capability) (alg : String) : Except Error String :=
  if Capability.ofName? alg = some wanted then .ok alg else .error (.unsupportedAlgorithm alg)

def senderHeader (alg enc : String) (kid : Option String) (extra : Header) : Header :=
  (((Header.insertText {} "alg" alg).insertText "enc" enc).insertText? "kid" kid).extend extra

def contentKeySize (enc : String) : Except Error Nat :=
  match Algorithm.contentBits? enc with
  | some bits => .ok (bits / 8)
  | none => .error (.unsupportedAlgorithm enc)

def contentKey (options : EncryptOptions) (enc : String) (entropy : Entropy) :
    Except Error Bytes :=
  match options.contentKey with
  | some key => .ok key
  | none => (contentKeySize enc).map entropy.take

def recipientHeader (lone : Bool) (alg : String) (key : Jwk) : Header :=
  if lone then {} else (Header.insertText {} "alg" alg).insertText? "kid" key.kid?

def wrapAll (e : Engine m) (lone : Bool) (contentKey : Bytes) :
    Entropy → List (Jwk × String) → m (List Recipient)
  | _, [] => pure []
  | entropy, (key, alg) :: rest => do
      let encryptedKey ← e.encryptForKey alg key entropy.left contentKey
      let others ← wrapAll e lone contentKey entropy.right rest
      return { header := recipientHeader lone alg key, encryptedKey } :: others

def splitTag (sealed : Bytes) : Except Error (Bytes × Bytes) :=
  if sealed.length < Gcm.tagSize then .error (.cryptoFailure .shortOutput)
  else
    let size := sealed.length - Gcm.tagSize
    .ok (sealed.take size, sealed.drop size)

def encrypt (e : Engine m) (recipients : List Jwk) (payload : Bytes) (format : Format)
    (options : EncryptOptions) (entropy : Entropy) : m Jwe := do
  if let some fault := encryptFault? recipients payload format options then throw fault
  let enc ← liftResult (requireCapability .symmetricEncrypter
    (options.enc.getD e.config.contentEncryption))
  let algs ← liftResult (recipients.mapM fun key =>
    requireCapability .keyEncrypter (key.alg?.getD e.config.keyEncryption))
  let lone := recipients.length == 1
  let kid := if lone then recipients.head?.bind Jwk.kid? else none
  let protectedHeader :=
    Protected.ofHeader (senderHeader (algs.headD "") enc kid options.protectedHeader)
  let contentKey ← liftResult (contentKey options enc entropy.left.left.left)
  let iv := options.iv.getD (entropy.left.right.take Algorithm.ivSize)
  let aad := options.aad.getD []
  let wrapped ← wrapAll e lone contentKey entropy.right (recipients.zip algs)
  let a ← liftResult (Algorithm.ofId enc ⟨some iv, some (authenticatedData protectedHeader aad)⟩)
  let sealed ← e.encrypt a (Jwk.oct contentKey) entropy.left.left.right payload
  let (ciphertext, tag) ← liftResult (splitTag sealed)
  return {
    protectedHeader
    unprotected := options.unprotected
    iv
    aad
    ciphertext
    tag
    recipients := wrapped }

def isNamed (t : Jwe) (kid : Option String) (r : Recipient) : Bool :=
  kid.isSome && t.kidOf? r == kid

def trialOrder (t : Jwe) (kid : Option String) : List (Nat × Recipient) :=
  let all := t.recipients.zipIdx.map fun (r, i) => (i, r)
  let (named, others) := all.partition fun (_, r) => t.isNamed kid r
  named ++ others

/-- The first content key that can be unwrapped. A recipient without a known algorithm ends the
search; one whose key cannot be unwrapped is passed over. -/
def unwrapFirst (e : Engine m) (t : Jwe) (key : Jwk) (reference : Reference) :
    List (Nat × Recipient) → m Bytes
  | [] => throw .contentKeyUnrecoverable
  | (index, r) :: rest => do
      let some alg := t.algOf? r | throw (.missingAlgorithm s!"recipient {index}")
      let a ← liftResult (Algorithm.ofId alg)
      let unwrapped ← tryCatch (some <$> e.decryptKept a key reference r.encryptedKey)
        fun _ => pure none
      match unwrapped with
      | some contentKey => return contentKey
      | none => unwrapFirst e t key reference rest

def decrypt (e : Engine m) (t : Jwe) (reference : Reference) : m Bytes := do
  liftResult t.check
  let some enc := t.protectedHeader.header.enc? | throw (.missingAlgorithm "protected header enc")
  let key ← liftResult (e.store.latest reference)
  let contentKey ← unwrapFirst e t key reference (t.trialOrder key.kid?)
  let aad := authenticatedData t.protectedHeader t.aad
  let a ← liftResult (Algorithm.ofId enc ⟨some t.iv, some aad⟩)
  e.decrypt a (Jwk.oct contentKey) (t.ciphertext ++ t.tag)

end Jwe

end JoseTokens
