import JoseTokens.Bytes
import JoseTokens.Json.Value
import JoseTokens.Json.ReadError

namespace JoseTokens.Json

abbrev Step (α : Type) := Except ReadError (α × Bytes)

/-- The number says how many levels of arrays and objects may still be opened. -/
abbrev Reader (α : Type) := Nat → Bytes → Step α

def maxDepth : Nat := 127

def isBlank (b : UInt8) : Bool :=
  b == ' '.toUInt8 || b == '\t'.toUInt8 || b == '\n'.toUInt8 || b == '\r'.toUInt8

def skipBlank (bytes : Bytes) : Bytes :=
  bytes.dropWhile isBlank

def isDigit (b : UInt8) : Bool :=
  decide ('0'.toUInt8 ≤ b) && decide (b ≤ '9'.toUInt8)

def digitValue (b : UInt8) : Nat :=
  b.toNat - 48

def word : Bytes → Bytes → Except ReadError Bytes
  | [], rest => .ok rest
  | _ :: _, [] => .error .endOfValue
  | c :: cs, b :: rest => if b = c then word cs rest else .error .expectedIdent

def hexValue? (b : UInt8) : Option Nat :=
  let n := b.toNat
  if 48 ≤ n ∧ n ≤ 57 then some (n - 48)
  else if 65 ≤ n ∧ n ≤ 70 then some (n - 55)
  else if 97 ≤ n ∧ n ≤ 102 then some (n - 87)
  else none

def codeUnit : Bytes → Step Nat
  | a :: b :: c :: d :: rest =>
      match hexValue? a, hexValue? b, hexValue? c, hexValue? d with
      | some a, some b, some c, some d => .ok (((a * 16 + b) * 16 + c) * 16 + d, rest)
      | _, _, _, _ => .error .invalidEscape
  | _ => .error .endOfString

def codePoint (n : Nat) : Bytes :=
  String.utf8EncodeChar (Char.ofNat n)

def lowSurrogate (high : Nat) : Bytes → Step Bytes
  | [] => .error .endOfString
  | b :: rest =>
      if b ≠ '\\'.toUInt8 then .error .endOfHexEscape
      else match rest with
        | [] => .error .endOfString
        | u :: rest =>
            if u ≠ 'u'.toUInt8 then .error .endOfHexEscape
            else match codeUnit rest with
              | .error e => .error e
              | .ok (low, rest) =>
                  if low < 0xDC00 ∨ 0xDFFF < low then .error .loneSurrogate
                  else .ok (codePoint ((high - 0xD800) * 1024 + (low - 0xDC00) + 0x10000), rest)

def unicodeEscape (bytes : Bytes) : Step Bytes :=
  match codeUnit bytes with
  | .error e => .error e
  | .ok (n, rest) =>
      if 0xDC00 ≤ n ∧ n ≤ 0xDFFF then .error .loneSurrogate
      else if 0xD800 ≤ n ∧ n ≤ 0xDBFF then lowSurrogate n rest
      else .ok (codePoint n, rest)

def escaped? (b : UInt8) : Option UInt8 :=
  if b = '"'.toUInt8 ∨ b = '\\'.toUInt8 ∨ b = '/'.toUInt8 then some b
  else if b = 'b'.toUInt8 then some 8
  else if b = 'f'.toUInt8 then some 12
  else if b = 'n'.toUInt8 then some 10
  else if b = 'r'.toUInt8 then some 13
  else if b = 't'.toUInt8 then some 9
  else none

def escape : Bytes → Step Bytes
  | [] => .error .endOfString
  | b :: rest =>
      if b = 'u'.toUInt8 then unicodeEscape rest
      else match escaped? b with
        | some c => .ok ([c], rest)
        | none => .error .invalidEscape

def stringOctets : Bytes → Bytes → Bytes → Step Bytes
  | [], _, _ => .error .endOfString
  | _, _, [] => .error .endOfString
  | _ :: bound, done, b :: rest =>
      if b = '"'.toUInt8 then .ok (done.reverse, rest)
      else if b = '\\'.toUInt8 then
        match escape rest with
        | .error e => .error e
        | .ok (c, rest) => stringOctets bound (c.reverse ++ done) rest
      else if b < 32 then .error .controlCharacter
      else stringOctets bound (b :: done) rest

def stringBody (bytes : Bytes) : Step String :=
  match stringOctets bytes [] bytes with
  | .error e => .error e
  | .ok (octets, rest) =>
      match Bytes.toText? octets with
      | some text => .ok (text, rest)
      | none => .error .invalidCodePoint

def takeDigits (n count : Nat) : Bytes → Nat × Nat × Bytes
  | [] => (n, count, [])
  | b :: rest =>
      if isDigit b ∧ n * 10 + digitValue b < Nat.pow 2 64 then
        takeDigits (n * 10 + digitValue b) (count + 1) rest
      else (n, count, b :: rest)

def skipDigits (bytes : Bytes) : Nat × Bytes :=
  ((bytes.takeWhile isDigit).length, bytes.dropWhile isDigit)

def startsWithDigit : Bytes → Bool
  | [] => false
  | b :: _ => isDigit b

def doubleOf (negative : Bool) (digits : Nat) (e : Int) (rest : Bytes) : Step Json :=
  match Double.ofDecimal? negative digits e with
  | some x => .ok (.double x, rest)
  | none => .error .numberOutOfRange

def exponentPart (negative : Bool) (digits : Nat) (e : Int) (bytes : Bytes) : Step Json :=
  let (down, bytes) : Bool × Bytes := match bytes with
    | [] => (false, [])
    | b :: rest =>
        if b = '+'.toUInt8 then (false, rest)
        else if b = '-'.toUInt8 then (true, rest)
        else (false, b :: rest)
  match bytes with
  | [] => .error .endOfValue
  | b :: rest =>
      if isDigit b then
        let power := ((b :: rest).takeWhile isDigit).foldl (fun n d => n * 10 + digitValue d) 0
        doubleOf negative digits (if down then e - power else e + power) (rest.dropWhile isDigit)
      else .error .invalidNumber

def isExponentLetter (b : UInt8) : Bool :=
  b == 'e'.toUInt8 || b == 'E'.toUInt8

def fractionPart (negative : Bool) (digits : Nat) (e : Int) (bytes : Bytes) : Step Json :=
  if startsWithDigit bytes then
    let (digits, count, rest) := takeDigits digits 0 bytes
    let rest := rest.dropWhile isDigit
    let e := e - count
    match rest with
    | [] => doubleOf negative digits e []
    | b :: rest =>
        if isExponentLetter b then exponentPart negative digits e rest
        else doubleOf negative digits e (b :: rest)
  else if bytes.isEmpty then .error .endOfValue
  else .error .invalidNumber

def wholeNumber (negative : Bool) (digits dropped : Nat) (rest : Bytes) : Step Json :=
  if dropped ≠ 0 then doubleOf negative digits dropped rest
  else if negative then
    if digits = 0 ∨ Nat.pow 2 63 < digits then doubleOf true digits 0 rest
    else .ok (.int (-digits), rest)
  else .ok (.int digits, rest)

def afterWhole (negative : Bool) (digits dropped : Nat) (bytes : Bytes) : Step Json :=
  match bytes with
  | [] => wholeNumber negative digits dropped []
  | b :: rest =>
      if b = '.'.toUInt8 then fractionPart negative digits dropped rest
      else if isExponentLetter b then exponentPart negative digits dropped rest
      else wholeNumber negative digits dropped (b :: rest)

def number (negative : Bool) : Bytes → Step Json
  | [] => .error .endOfValue
  | b :: rest =>
      if b = '0'.toUInt8 then
        if startsWithDigit rest then .error .invalidNumber else afterWhole negative 0 0 rest
      else if isDigit b then
        let (digits, _, rest) := takeDigits (digitValue b) 0 rest
        let (dropped, rest) := skipDigits rest
        afterWhole negative digits dropped rest
      else .error .invalidNumber

def elementsFrom {α : Type} (item : Bytes → Step α) : Bytes → List α → Bytes → Step (List α)
  | [], _, _ => .error .endOfList
  | _ :: bound, done, bytes =>
      match skipBlank bytes with
      | [] => .error .endOfList
      | b :: rest =>
          if b = ']'.toUInt8 then .ok (done.reverse, rest)
          else
            let start : Except ReadError Bytes :=
              if done.isEmpty then .ok (b :: rest)
              else if b = ','.toUInt8 then
                match skipBlank rest with
                | [] => .error .endOfValue
                | c :: rest =>
                    if c = ']'.toUInt8 then .error .trailingComma else .ok (c :: rest)
              else .error .expectedCommaOrBracket
            match start with
            | .error e => .error e
            | .ok bytes =>
                match item bytes with
                | .error e => .error e
                | .ok (value, rest) => elementsFrom item bound (value :: done) rest

def elements {α : Type} (item : Bytes → Step α) (bytes : Bytes) : Step (List α) :=
  elementsFrom item bytes [] bytes

def colon (bytes : Bytes) : Except ReadError Bytes :=
  match skipBlank bytes with
  | [] => .error .endOfObject
  | b :: rest => if b = ':'.toUInt8 then .ok rest else .error .expectedColon

def membersFrom {σ : Type} (member : String → σ → Bytes → Step σ) :
    Bytes → Bool → σ → Bytes → Step σ
  | [], _, _, _ => .error .endOfObject
  | _ :: bound, first, state, bytes =>
      match skipBlank bytes with
      | [] => .error .endOfObject
      | b :: rest =>
          if b = '\x7d'.toUInt8 then .ok (state, rest)
          else
            let start : Except ReadError Bytes :=
              if first then .ok (b :: rest)
              else if b = ','.toUInt8 then
                match skipBlank rest with
                | [] => .error .endOfValue
                | c :: rest =>
                    if c = '\x7d'.toUInt8 then .error .trailingComma else .ok (c :: rest)
              else .error .expectedCommaOrBrace
            match start with
            | .error e => .error e
            | .ok [] => .error .keyNotText
            | .ok (q :: rest) =>
                if q = '"'.toUInt8 then
                  match stringBody rest with
                  | .error e => .error e
                  | .ok (name, rest) =>
                      match member name state rest with
                      | .error e => .error e
                      | .ok (state, rest) => membersFrom member bound false state rest
                else .error .keyNotText

def members {σ : Type} (member : String → σ → Bytes → Step σ) (start : σ) (bytes : Bytes) : Step σ :=
  membersFrom member bytes true start bytes

def putMember (item : Bytes → Step Json) (name : String) (done : List (String × Json))
    (bytes : Bytes) : Step (List (String × Json)) :=
  match colon bytes with
  | .error e => .error e
  | .ok bytes =>
      match item bytes with
      | .error e => .error e
      | .ok (value, rest) => .ok (put name value done, rest)

def value : Reader Json
  | depth, bytes =>
    match skipBlank bytes with
    | [] => .error .endOfValue
    | b :: rest =>
        if b = 'n'.toUInt8 then (word (Bytes.ofText "ull") rest).map fun rest => (.null, rest)
        else if b = 't'.toUInt8 then
          (word (Bytes.ofText "rue") rest).map fun rest => (.bool true, rest)
        else if b = 'f'.toUInt8 then
          (word (Bytes.ofText "alse") rest).map fun rest => (.bool false, rest)
        else if b = '-'.toUInt8 then number true rest
        else if isDigit b then number false (b :: rest)
        else if b = '"'.toUInt8 then (stringBody rest).map fun (s, rest) => (.string s, rest)
        else if b = '['.toUInt8 then
          match depth with
          | 0 => .error .depthExceeded
          | depth + 1 =>
              (elements (value depth) rest).map fun (items, rest) => (.array items, rest)
        else if b = '\x7b'.toUInt8 then
          match depth with
          | 0 => .error .depthExceeded
          | depth + 1 =>
              (members (putMember (value depth)) [] rest).map fun (ms, rest) => (.object ms, rest)
        else .error .expectedValue

def document {α : Type} (reader : Reader α) (bytes : Bytes) : Except ReadError α :=
  match reader maxDepth bytes with
  | .error e => .error e
  | .ok (value, rest) => if (skipBlank rest).isEmpty then .ok value else .error .trailingCharacters

end JoseTokens.Json
