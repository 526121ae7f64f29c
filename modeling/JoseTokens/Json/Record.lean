import JoseTokens.Json.Skip

namespace JoseTokens.Json

def Found.of : Json → Found
  | .null => .null
  | .bool b => .bool b
  | .int n => .int n
  | .double x => .double x
  | .string s => .string s
  | .array _ => .sequence
  | .object _ => .map

def mismatch (wanted : String) (bytes : Bytes) : ReadError :=
  let first := (skipBlank bytes).head?
  if first = some '['.toUInt8 then .wrongType .sequence wanted
  else if first = some '\x7b'.toUInt8 then .wrongType .map wanted
  else match value 0 bytes with
    | .ok (found, _) => .wrongType (.of found) wanted
    | .error e => e

def text : Reader String
  | _, bytes =>
    match skipBlank bytes with
    | [] => .error .endOfValue
    | b :: rest =>
        if b = '"'.toUInt8 then stringBody rest else .error (mismatch "a string" (b :: rest))

def flag : Reader Bool
  | _, bytes =>
    match skipBlank bytes with
    | [] => .error .endOfValue
    | b :: rest =>
        if b = 't'.toUInt8 then (word (Bytes.ofText "rue") rest).map fun rest => (true, rest)
        else if b = 'f'.toUInt8 then (word (Bytes.ofText "alse") rest).map fun rest => (false, rest)
        else .error (mismatch "a boolean" (b :: rest))

def natural (bound : Nat) (wanted : String) : Reader Nat
  | _, bytes =>
    match value 0 bytes with
    | .ok (.int n, rest) =>
        if 0 ≤ n ∧ n < bound then .ok (n.toNat, rest) else .error (.outOfRange (.int n) wanted)
    | _ => .error (mismatch wanted bytes)

def optional {α : Type} (reader : Reader α) : Reader (Option α)
  | depth, bytes =>
    match skipBlank bytes with
    | [] => .error .endOfValue
    | b :: rest =>
        if b = 'n'.toUInt8 then (word (Bytes.ofText "ull") rest).map fun rest => (none, rest)
        else (reader depth (b :: rest)).map fun (x, rest) => (some x, rest)

def list {α : Type} (reader : Reader α) : Reader (List α)
  | depth, bytes =>
    match skipBlank bytes with
    | [] => .error .endOfValue
    | b :: rest =>
        if b = '['.toUInt8 then
          match depth with
          | 0 => .error .depthExceeded
          | depth + 1 => elements (reader depth) rest
        else .error (mismatch "a sequence" (b :: rest))

def map : Reader (List (String × Json))
  | depth, bytes =>
    match skipBlank bytes with
    | [] => .error .endOfValue
    | b :: rest =>
        if b = '\x7b'.toUInt8 then
          match depth with
          | 0 => .error .depthExceeded
          | depth + 1 => members (putMember (value depth)) [] rest
        else .error (mismatch "a map" (b :: rest))

def variant {α : Type} (known : List (String × α)) (name : String) : Except ReadError α :=
  match find? name known with
  | some x => .ok x
  | none => .error (.unknownVariant name (known.map (·.1)))

def unit (bytes : Bytes) : Except ReadError Bytes :=
  match skipBlank bytes with
  | [] => .error .endOfValue
  | b :: rest =>
      if b = 'n'.toUInt8 then word (Bytes.ofText "ull") rest
      else .error (mismatch "unit" (b :: rest))

def taggedChoice {α : Type} (known : List (String × α)) (bytes : Bytes) : Step α :=
  match skipBlank bytes with
  | [] => .error .endOfObject
  | q :: rest =>
      if q = '"'.toUInt8 then
        match stringBody rest with
        | .error e => .error e
        | .ok (name, rest) =>
            match variant known name, (colon rest).bind unit with
            | .error e, _ => .error e
            | .ok _, .error e => .error e
            | .ok x, .ok rest =>
                match skipBlank rest with
                | [] => .error .endOfObject
                | c :: rest => if c = '\x7d'.toUInt8 then .ok (x, rest) else .error .expectedValue
      else if q = '\x7d'.toUInt8 then .error .expectedValue
      else .error .keyNotText

def choice {α : Type} (known : List (String × α)) : Reader α
  | depth, bytes =>
    match skipBlank bytes with
    | [] => .error .endOfValue
    | b :: rest =>
        if b = '"'.toUInt8 then
          match stringBody rest with
          | .error e => .error e
          | .ok (name, rest) => (variant known name).map fun x => (x, rest)
        else if b = '\x7b'.toUInt8 then
          match depth with
          | 0 => .error .depthExceeded
          | _ + 1 => taggedChoice known rest
        else .error .expectedValue

structure Member (σ : Type) where
  name : String
  required : Bool
  read : Reader (σ → σ)

def Member.of {σ α : Type} (name : String) (required : Bool) (reader : Reader α)
    (set : α → σ → σ) : Member σ where
  name
  required
  read depth bytes := (reader depth bytes).map fun (x, rest) => (set x, rest)

structure Record (σ : Type) where
  name : String
  members : List (Member σ)

namespace Record

variable {σ : Type} (r : Record σ)

def wanted : String :=
  "struct " ++ r.name

def wantedLength : String :=
  s!"struct {r.name} with {r.members.length} element" ++ (if r.members.length = 1 then "" else "s")

def readMember (depth : Nat) (name : String) (state : σ × List String) (bytes : Bytes) :
    Step (σ × List String) :=
  match r.members.find? fun m => m.name == name with
  | none => ((colon bytes).bind skip).map fun rest => (state, rest)
  | some m =>
      if state.2.contains name then .error (.duplicateField name)
      else
        match (colon bytes).bind (m.read depth) with
        | .error e => .error e
        | .ok (set, rest) => .ok ((set state.1, name :: state.2), rest)

def missing? (seen : List String) : Option String :=
  (r.members.find? fun m => m.required && !seen.contains m.name).map (·.name)

def readObject (depth : Nat) (start : σ) (bytes : Bytes) : Step σ :=
  match Json.members (r.readMember depth) (start, []) bytes with
  | .error e => .error e
  | .ok ((state, seen), rest) =>
      match r.missing? seen with
      | some name => .error (.missingField name)
      | none => .ok (state, rest)

def closeArray (bytes : Bytes) : Except ReadError Bytes :=
  match skipBlank bytes with
  | [] => .error .endOfList
  | b :: rest =>
      if b = ']'.toUInt8 then .ok rest
      else if b = ','.toUInt8 ∧ (skipBlank rest).head? = some ']'.toUInt8 then .error .trailingComma
      else .error .trailingCharacters

def readArray (depth : Nat) : Nat → List (Member σ) → σ → Bytes → Step σ
  | _, [], state, bytes => (closeArray bytes).map fun rest => (state, rest)
  | position, m :: rest, state, bytes =>
      match skipBlank bytes with
      | [] => .error .endOfList
      | b :: tail =>
          if b = ']'.toUInt8 then
            if (m :: rest).any (·.required) then
              .error (.tooShort (position + ((m :: rest).takeWhile (!·.required)).length)
                r.wantedLength)
            else .ok (state, tail)
          else
            let start : Except ReadError Bytes :=
              if position = 0 then .ok (b :: tail)
              else if b = ','.toUInt8 then
                match skipBlank tail with
                | [] => .error .endOfValue
                | c :: tail =>
                    if c = ']'.toUInt8 then .error .trailingComma else .ok (c :: tail)
              else .error .expectedCommaOrBracket
            match start.bind (m.read depth) with
            | .error e => .error e
            | .ok (set, tail) => readArray depth (position + 1) rest (set state) tail

def read (start : σ) : Reader σ
  | depth, bytes =>
    match skipBlank bytes with
    | [] => .error .endOfValue
    | b :: rest =>
        if b = '\x7b'.toUInt8 then
          match depth with
          | 0 => .error .depthExceeded
          | depth + 1 => r.readObject depth start rest
        else if b = '['.toUInt8 then
          match depth with
          | 0 => .error .depthExceeded
          | depth + 1 => r.readArray depth 0 r.members start rest
        else .error (mismatch r.wanted (b :: rest))

end Record

end JoseTokens.Json
