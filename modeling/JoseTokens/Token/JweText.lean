import JoseTokens.Token.Jwe
import JoseTokens.Token.JwsText

namespace JoseTokens.Jwe

def recipientMembers (r : Recipient) : List (String × Json) :=
  headerMember "header" r.header ++ [octetsMember "encrypted_key" r.encryptedKey]

def leadingMembers (t : Jwe) : List (String × Json) :=
  protectedMember t.protectedHeader ++ headerMember "unprotected" t.unprotected

def contentMembers (t : Jwe) : List (String × Json) :=
  (if t.aad.isEmpty then [] else [octetsMember "aad" t.aad]) ++
    [octetsMember "iv" t.iv, octetsMember "ciphertext" t.ciphertext, octetsMember "tag" t.tag]

def compactText (t : Jwe) (r : Recipient) : String :=
  String.intercalate "." [t.protectedHeader.encoded, Base64Url.encode r.encryptedKey,
    Base64Url.encode t.iv, Base64Url.encode t.ciphertext, Base64Url.encode t.tag]

def flatJson (t : Jwe) (r : Recipient) : Json :=
  .object (t.leadingMembers ++ recipientMembers r ++ t.contentMembers)

def generalJson (t : Jwe) : Json :=
  .object (t.leadingMembers ++
    [("recipients", .array (t.recipients.map fun r => .object (recipientMembers r)))] ++
    t.contentMembers)

def fitsCompact (t : Jwe) (r : Recipient) : Bool :=
  t.unprotected.isEmpty && r.header.isEmpty && t.aad.isEmpty

def serialize (t : Jwe) (format : Format) : Except Error String := do
  t.check
  match t.recipients, format with
  | _, .general => return t.generalJson.compact
  | [r], .flat => return (t.flatJson r).compact
  | [r], .compact =>
      if t.fitsCompact r then return t.compactText r else .error (.invalidArgument .compactExtras)
  | many, _ => .error (.tooManyRecipients many.length)

structure RecipientForm where
  header : Header := {}
  encryptedKey : Option String := none
  deriving Repr

def recipientRecord : Json.Record RecipientForm where
  name := "RecipientJson"
  members := [
    .of "header" false Header.read fun header f => { f with header },
    .of "encrypted_key" false (Json.optional Json.text)
      fun encryptedKey f => { f with encryptedKey }]

structure Form where
  protectedText : Option String := none
  unprotected : Header := {}
  single : RecipientForm := {}
  recipients : Option (List RecipientForm) := none
  aad : Option String := none
  iv : Option String := none
  ciphertext : Option String := none
  tag : Option String := none
  deriving Repr

def record : Json.Record Form where
  name := "JweJson"
  members := [
    .of "protected" false (Json.optional Json.text) fun protectedText f => { f with protectedText },
    .of "unprotected" false Header.read fun unprotected f => { f with unprotected },
    .of "header" false Header.read fun header f => { f with single := { f.single with header } },
    .of "encrypted_key" false (Json.optional Json.text)
      fun encryptedKey f => { f with single := { f.single with encryptedKey } },
    .of "recipients" false (Json.optional (Json.list (recipientRecord.read {})))
      fun recipients f => { f with recipients },
    .of "aad" false (Json.optional Json.text) fun aad f => { f with aad },
    .of "iv" false (Json.optional Json.text) fun iv f => { f with iv },
    .of "ciphertext" false (Json.optional Json.text) fun ciphertext f => { f with ciphertext },
    .of "tag" false (Json.optional Json.text) fun tag f => { f with tag }]

def recipientOf (f : RecipientForm) : Except Error Recipient :=
  (neededField "encrypted_key" f.encryptedKey).map fun encryptedKey =>
    { header := f.header, encryptedKey }

def recipientsOf (f : Form) : Except Error (List Recipient) :=
  match f.recipients with
  | some [] => .error (.malformedToken "recipients")
  | some forms => forms.mapM recipientOf
  | none => (recipientOf f.single).map fun r => [r]

def optionalField (name : String) : Option String → Except Error Bytes
  | some text => decodeField name text
  | none => .ok []

def ofForm (f : Form) : Except Error Jwe := do
  let recipients ← recipientsOf f
  let protectedHeader ← Protected.decode (f.protectedText.getD "")
  let iv ← neededField "iv" f.iv
  let aad ← optionalField "aad" f.aad
  let ciphertext ← neededField "ciphertext" f.ciphertext
  let tag ← neededField "tag" f.tag
  return { protectedHeader, unprotected := f.unprotected, iv, aad, ciphertext, tag, recipients }

def ofCompact (protectedText encryptedKey iv ciphertext tag : String) : Except Error Jwe := do
  let protectedHeader ← Protected.decode protectedText
  let iv ← decodeField "iv" iv
  let ciphertext ← decodeField "ciphertext" ciphertext
  let tag ← decodeField "tag" tag
  let encryptedKey ← decodeField "encrypted_key" encryptedKey
  return { protectedHeader, iv, ciphertext, tag, recipients := [{ encryptedKey }] }

def ofJson (bytes : Bytes) : Except Error Jwe :=
  match Json.document (record.read {}) bytes with
  | .ok form => ofForm form
  | .error e => .error (.serialization (.jsonOf "JWE JSON" e))

def parse (text : String) : Except Error Jwe :=
  match compactSegments text with
  | [protectedText, encryptedKey, iv, ciphertext, tag] =>
      ofCompact protectedText encryptedKey iv ciphertext tag
  | _ => ofJson (Bytes.ofText text)

def deserialize (text : String) : Except Error Jwe := do
  let t ← parse (Text.trim text)
  t.check
  return t

end JoseTokens.Jwe
