import JoseTokens.Error

namespace JoseTokens

structure Header where
  members : List (String × Json) := []
  deriving Repr

namespace Header

def ofPairs (pairs : List (String × Json)) : Header :=
  ⟨pairs.foldl (fun done (name, value) => Json.put name value done) []⟩

def isEmpty (h : Header) : Bool :=
  h.members.isEmpty

def size (h : Header) : Nat :=
  h.members.length

def names (h : Header) : List String :=
  h.members.map (·.1)

def find? (h : Header) (name : String) : Option Json :=
  Json.find? name h.members

def text? (h : Header) (name : String) : Option String :=
  (h.find? name).bind Json.text?

def contains (h : Header) (name : String) : Bool :=
  (h.find? name).isSome

def alg? (h : Header) : Option String :=
  h.text? "alg"

def enc? (h : Header) : Option String :=
  h.text? "enc"

def kid? (h : Header) : Option String :=
  h.text? "kid"

def insert (h : Header) (name : String) (value : Json) : Header :=
  ⟨Json.put name value h.members⟩

def insertText (h : Header) (name text : String) : Header :=
  h.insert name (.string text)

def insertText? (h : Header) (name : String) (text : Option String) : Header :=
  match text with
  | some text => h.insertText name text
  | none => h

def erase (h : Header) (name : String) : Header :=
  ⟨Json.erase name h.members⟩

def extend (h other : Header) : Header :=
  other.members.foldl
    (fun h (name, value) => if h.contains name then h else h.insert name value) h

def same (a b : Header) : Bool :=
  (Json.object a.members).same (.object b.members)

def toJson (h : Header) : Json :=
  .object h.members

def read : Json.Reader Header
  | depth, bytes => (Json.map depth bytes).map fun (members, rest) => (⟨members⟩, rest)

def ofJson (bytes : Bytes) : Except Json.ReadError Header :=
  Json.document read bytes

end Header

structure Protected where
  header : Header := {}
  encoded : String := ""
  deriving Repr

namespace Protected

def ofHeader (header : Header) : Protected where
  header
  encoded :=
    if header.isEmpty then ""
    else Base64Url.encode (Bytes.ofText header.toJson.compact)

def decode (encoded : String) : Except Error Protected :=
  if encoded.isEmpty then .ok {}
  else do
    let bytes ← decodeField "protected" encoded
    match Header.ofJson bytes with
    | .ok header => return { header, encoded }
    | .error e => .error (.serialization (.jsonOf "protected header" e))

def isEmpty (p : Protected) : Bool :=
  p.header.isEmpty

def same (a b : Protected) : Bool :=
  a.encoded == b.encoded && a.header.same b.header

end Protected

end JoseTokens
