import JoseTokens.Text.Blank
import JoseTokens.Token.Jws

namespace JoseTokens

def headerMember (name : String) (h : Header) : List (String × Json) :=
  if h.isEmpty then [] else [(name, h.toJson)]

def protectedMember (p : Protected) : List (String × Json) :=
  if p.encoded.isEmpty then [] else [("protected", .string p.encoded)]

def octetsMember (name : String) (bytes : Bytes) : String × Json :=
  (name, .string (Base64Url.encode bytes))

def segments (text : String) : List String :=
  (text.toList.splitOn '.').map String.ofList

def compactSegments (text : String) : List String :=
  if text.toList.head? = some '\x7b' then [] else segments text

def neededField (name : String) : Option String → Except Error Bytes
  | some text => decodeField name text
  | none => .error (.malformedToken name)

namespace Jws

def entryMembers (s : Signature) : List (String × Json) :=
  protectedMember s.protectedHeader ++ headerMember "header" s.header ++
    [octetsMember "signature" s.signature]

def compactText (payload : Bytes) (s : Signature) : String :=
  s.protectedHeader.encoded ++ "." ++ Base64Url.encode payload ++ "." ++
    Base64Url.encode s.signature

def flatJson (payload : Bytes) (s : Signature) : Json :=
  .object (octetsMember "payload" payload :: entryMembers s)

def generalJson (t : Jws) : Json :=
  .object [octetsMember "payload" t.payload,
    ("signatures", .array (t.signatures.map fun s => .object (entryMembers s)))]

def serialize (t : Jws) (format : Format) : Except Error String :=
  match t.signatures, format with
  | [], _ => .error (.malformedToken "signature")
  | _, .general => .ok t.generalJson.compact
  | [s], .flat => .ok (flatJson t.payload s).compact
  | [s], .compact =>
      if s.header.isEmpty then .ok (compactText t.payload s)
      else .error (.invalidArgument .compactHeader)
  | many, _ => .error (.tooManySignatures many.length)

structure EntryForm where
  protectedText : Option String := none
  header : Header := {}
  signature : Option String := none
  deriving Repr

def entryRecord : Json.Record EntryForm where
  name := "SignatureJson"
  members := [
    .of "protected" false (Json.optional Json.text) fun protectedText f => { f with protectedText },
    .of "header" false Header.read fun header f => { f with header },
    .of "signature" false (Json.optional Json.text) fun signature f => { f with signature }]

structure Form where
  payload : Option String := none
  entries : Option (List EntryForm) := none
  single : EntryForm := {}
  deriving Repr

def record : Json.Record Form where
  name := "JwsJson"
  members := [
    .of "payload" false (Json.optional Json.text) fun payload f => { f with payload },
    .of "signatures" false (Json.optional (Json.list (entryRecord.read {})))
      fun entries f => { f with entries },
    .of "protected" false (Json.optional Json.text)
      fun text f => { f with single := { f.single with protectedText := text } },
    .of "header" false Header.read
      fun header f => { f with single := { f.single with header } },
    .of "signature" false (Json.optional Json.text)
      fun signature f => { f with single := { f.single with signature } }]

def entryOf (f : EntryForm) : Except Error Signature :=
  match f.signature with
  | none => .error (.malformedToken "signature")
  | some text => do
      let protectedHeader ← Protected.decode (f.protectedText.getD "")
      let signature ← decodeField "signature" text
      return { protectedHeader, header := f.header, signature }

def ofForm (f : Form) : Except Error Jws := do
  let payload ← neededField "payload" f.payload
  match f.entries with
  | some [] => .error (.malformedToken "signatures")
  | some entries => return { payload, signatures := ← entries.mapM entryOf }
  | none => return { payload, signatures := [← entryOf f.single] }

def ofCompact (protectedText payload signature : String) : Except Error Jws :=
  if signature.isEmpty then .error (.malformedToken "signature")
  else do
    let payload ← decodeField "payload" payload
    let protectedHeader ← Protected.decode protectedText
    let signature ← decodeField "signature" signature
    return { payload, signatures := [{ protectedHeader, signature }] }

def ofJson (bytes : Bytes) : Except Error Jws :=
  match Json.document (record.read {}) bytes with
  | .ok form => ofForm form
  | .error e => .error (.serialization (.jsonOf "JWS JSON" e))

def deserialize (text : String) : Except Error Jws :=
  let text := Text.trim text
  match compactSegments text with
  | [protectedText, payload, signature] => ofCompact protectedText payload signature
  | _ => ofJson (Bytes.ofText text)

end Jws

end JoseTokens
