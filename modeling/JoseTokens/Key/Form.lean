import JoseTokens.Key.Jwk

namespace JoseTokens.Jwk

structure Form where
  keyType : String
  members : List (String × String)
  deriving DecidableEq, Repr

namespace Form

def optionalNames : List String :=
  ["kid", "use", "alg", "crv", "x", "y", "n", "e", "d", "p", "q", "dp", "dq", "qi", "k"]

def set (name : String) (text : Option String) (form : Form) : Form :=
  match text with
  | some text => { form with members := (name, text) :: form.members }
  | none => form

def record : Json.Record Form where
  name := "RawJwk"
  members :=
    .of "kty" true Json.text (fun keyType form => { form with keyType }) ::
      optionalNames.map fun name => .of name false (Json.optional Json.text) (set name)

def find? (form : Form) (name : String) : Option String :=
  Json.find? name form.members

def required (form : Form) (name : String) : Except Error Bytes :=
  match form.find? name with
  | some text => decodeField name text
  | none => .error (.invalidKey (.missingMember form.keyType name))

def optional (form : Form) (name : String) : Except Error (Option Bytes) :=
  match form.find? name with
  | some text => (decodeField name text).map some
  | none => .ok none

def curve (form : Form) : Except Error String :=
  match form.find? "crv" with
  | some name => .ok name
  | none => .error (.invalidKey (.missingMember form.keyType "crv"))

def labels (form : Form) : Labels where
  kid := form.find? "kid"
  alg := form.find? "alg"
  purpose := form.find? "use"

def ecMaterial (form : Form) : Except Error Material := do
  let curve ← form.curve
  let x ← form.required "x"
  let y ← form.required "y"
  let d ← form.optional "d"
  return .ec ⟨curve, x, y⟩ d

def rsaSecret (form : Form) (d : Bytes) : Except Error RsaSecret := do
  let p ← form.required "p"
  let q ← form.required "q"
  let dp ← form.required "dp"
  let dq ← form.required "dq"
  let qi ← form.required "qi"
  return ⟨d, p, q, dp, dq, qi⟩

def rsaMaterial (form : Form) : Except Error Material := do
  let n ← form.required "n"
  let e ← form.required "e"
  match ← form.optional "d" with
  | some d => return .rsa ⟨n, e⟩ (some (← form.rsaSecret d))
  | none => return .rsa ⟨n, e⟩ none

def okpMaterial (form : Form) : Except Error Material := do
  let curve ← form.curve
  let x ← form.required "x"
  let d ← form.optional "d"
  return .okp ⟨curve, x⟩ d

def material (form : Form) : Except Error Material :=
  if form.keyType = "EC" then form.ecMaterial
  else if form.keyType = "RSA" then form.rsaMaterial
  else if form.keyType = "OKP" then form.okpMaterial
  else if form.keyType = "oct" then (form.required "k").map .oct
  else .error (.invalidKey (.unsupportedType form.keyType))

def toJwk (form : Form) : Except Error Jwk :=
  form.material.map fun material => { labels := form.labels, material }

end Form

def read : Json.Reader Jwk
  | depth, bytes =>
    match Form.record.read ⟨"", []⟩ depth bytes with
    | .error e => .error e
    | .ok (form, rest) =>
        match form.toJwk with
        | .ok key => .ok (key, rest)
        | .error e => .error (.refused e.message)

def ofJson (bytes : Bytes) : Except Json.ReadError Jwk :=
  Json.document read bytes

namespace Form

def textOf : Json → Except Json.ReadError String
  | .string text => .ok text
  | other => .error (.wrongType (.of other) "a string")

def put (name : String) (value : Json) (form : Form) : Except Json.ReadError Form :=
  if name = "kty" then (textOf value).map fun keyType => { form with keyType }
  else if optionalNames.contains name then
    match value with
    | .null => .ok form
    | other => (textOf other).map fun text => set name (some text) form
  else .ok form

def putAll (form : Form) : List (String × Json) → Except Json.ReadError Form
  | [] => .ok form
  | (name, value) :: rest => do (← put name value form).putAll rest

def ofValue : Json → Except Json.ReadError Form
  | .object members =>
      (putAll ⟨"", []⟩ members).bind fun form =>
        if (Json.find? "kty" members).isSome then .ok form else .error (.missingField "kty")
  | .array items =>
      (putAll ⟨"", []⟩ (record.members.map (·.name) |>.zip items)).bind fun form =>
        if items.isEmpty then .error (.tooShort 0 record.wantedLength)
        else if record.members.length < items.length then .error (.tooLong items.length)
        else .ok form
  | other => .error (.wrongType (.of other) record.wanted)

end Form

def ofValue (value : Json) : Except Json.ReadError Jwk :=
  match Form.ofValue value with
  | .error e => .error e
  | .ok form =>
      match form.toJwk with
      | .ok key => .ok key
      | .error e => .error (.refused e.message)

def octets (name : String) (bytes : Bytes) : String × Json :=
  (name, .string (Base64Url.encode bytes))

def label (name : String) (text : Option String) : List (String × Json) :=
  (text.map fun text => (name, Json.string text)).toList

def labelMembers (labels : Labels) : List (String × Json) :=
  label "kid" labels.kid ++ label "use" labels.purpose ++ label "alg" labels.alg

def secretMembers (secret : RsaSecret) : List (String × Json) :=
  [octets "d" secret.d, octets "p" secret.p, octets "q" secret.q, octets "dp" secret.dp,
    octets "dq" secret.dq, octets "qi" secret.qi]

def materialMembers : Material → List (String × Json)
  | .ec key d =>
      [("crv", .string key.curve), octets "x" key.x, octets "y" key.y] ++
        (d.map (octets "d")).toList
  | .rsa key secret =>
      [octets "n" key.n, octets "e" key.e] ++ (secret.map secretMembers).getD []
  | .okp key d => [("crv", .string key.curve), octets "x" key.x] ++ (d.map (octets "d")).toList
  | .oct k => [octets "k" k]

def toJson (key : Jwk) : Json :=
  .object (("kty", .string key.keyType.text) :: labelMembers key.labels ++
    materialMembers key.material)

def text (key : Jwk) : String :=
  key.toJson.compact

end JoseTokens.Jwk
