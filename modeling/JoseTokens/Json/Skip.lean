import JoseTokens.Json.Reader

namespace JoseTokens.Json

def skipEscape : Bytes → Except ReadError Bytes
  | [] => .error .endOfString
  | b :: rest =>
      if b = 'u'.toUInt8 then (codeUnit rest).map (·.2)
      else if (escaped? b).isSome then .ok rest
      else .error .invalidEscape

def skipString : Nat → Bytes → Except ReadError Bytes
  | 0, _ => .error .endOfString
  | _, [] => .error .endOfString
  | fuel + 1, b :: rest =>
      if b = '"'.toUInt8 then .ok rest
      else if b = '\\'.toUInt8 then
        match skipEscape rest with
        | .error e => .error e
        | .ok rest => skipString fuel rest
      else if b < 32 then .error .controlCharacter
      else skipString fuel rest

def skipSomeDigits (bytes : Bytes) : Except ReadError Bytes :=
  if startsWithDigit bytes then .ok (bytes.dropWhile isDigit) else .error .invalidNumber

def skipExponent : Bytes → Except ReadError Bytes
  | [] => .error .invalidNumber
  | b :: rest =>
      if b = '+'.toUInt8 ∨ b = '-'.toUInt8 then skipSomeDigits rest else skipSomeDigits (b :: rest)

def skipAfterFraction : Bytes → Except ReadError Bytes
  | [] => .ok []
  | b :: rest => if isExponentLetter b then skipExponent rest else .ok (b :: rest)

def skipAfterWhole : Bytes → Except ReadError Bytes
  | [] => .ok []
  | b :: rest =>
      if b = '.'.toUInt8 then
        match skipSomeDigits rest with
        | .error e => .error e
        | .ok rest => skipAfterFraction rest
      else skipAfterFraction (b :: rest)

def skipNumber : Bytes → Except ReadError Bytes
  | [] => .error .invalidNumber
  | b :: rest =>
      if b = '0'.toUInt8 then
        if startsWithDigit rest then .error .invalidNumber else skipAfterWhole rest
      else if isDigit b then skipAfterWhole (rest.dropWhile isDigit)
      else .error .invalidNumber

def skipElements (item : Bytes → Except ReadError Bytes) : Nat → Bytes → Except ReadError Bytes
  | 0, _ => .error .endOfList
  | fuel + 1, bytes =>
      match item bytes with
      | .error e => .error e
      | .ok rest =>
          match skipBlank rest with
          | [] => .error .endOfList
          | b :: rest =>
              if b = ']'.toUInt8 then .ok rest
              else if b = ','.toUInt8 then skipElements item fuel rest
              else .error .expectedCommaOrBracket

def skipMembers (item : Bytes → Except ReadError Bytes) : Nat → Bytes → Except ReadError Bytes
  | 0, _ => .error .endOfObject
  | fuel + 1, bytes =>
      match skipBlank bytes with
      | [] => .error .endOfObject
      | q :: rest =>
          if q ≠ '"'.toUInt8 then .error .keyNotText
          else
            match skipString fuel rest >>= colon >>= item with
            | .error e => .error e
            | .ok rest =>
                match skipBlank rest with
                | [] => .error .endOfObject
                | b :: rest =>
                    if b = '\x7d'.toUInt8 then .ok rest
                    else if b = ','.toUInt8 then skipMembers item fuel rest
                    else .error .expectedCommaOrBrace

def skipWithin : Nat → Bytes → Except ReadError Bytes
  | size, bytes =>
    match skipBlank bytes with
    | [] => .error .endOfValue
    | b :: rest =>
        if b = 'n'.toUInt8 then word (Bytes.ofText "ull") rest
        else if b = 't'.toUInt8 then word (Bytes.ofText "rue") rest
        else if b = 'f'.toUInt8 then word (Bytes.ofText "alse") rest
        else if b = '-'.toUInt8 then skipNumber rest
        else if isDigit b then skipNumber (b :: rest)
        else if b = '"'.toUInt8 then skipString size rest
        else if b = '['.toUInt8 then
          match size with
          | 0 => .error .endOfList
          | size + 1 =>
              match skipBlank rest with
              | [] => .error .endOfList
              | c :: rest =>
                  if c = ']'.toUInt8 then .ok rest
                  else skipElements (skipWithin size) size (c :: rest)
        else if b = '\x7b'.toUInt8 then
          match size with
          | 0 => .error .endOfObject
          | size + 1 =>
              match skipBlank rest with
              | [] => .error .endOfObject
              | c :: rest =>
                  if c = '\x7d'.toUInt8 then .ok rest
                  else skipMembers (skipWithin size) size (c :: rest)
        else .error .expectedValue

def skip (bytes : Bytes) : Except ReadError Bytes :=
  skipWithin bytes.length bytes

end JoseTokens.Json
