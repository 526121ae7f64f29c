import JoseTokens.Bytes

namespace JoseTokens.Hex

def digit (n : Nat) : Char :=
  if n < 10 then Char.ofNat (48 + n) else Char.ofNat (87 + n)

def digitValue? (c : Char) : Option Nat :=
  if '0' ≤ c ∧ c ≤ '9' then some (c.toNat - 48)
  else if 'a' ≤ c ∧ c ≤ 'f' then some (c.toNat - 87)
  else if 'A' ≤ c ∧ c ≤ 'F' then some (c.toNat - 55)
  else none

def encodeOctets (bytes : Bytes) : List Char :=
  bytes.flatMap fun b => [digit (b.toNat / 16), digit (b.toNat % 16)]

def encode (bytes : Bytes) : String :=
  String.ofList (encodeOctets bytes)

def decodeOctets? : List Char → Option Bytes
  | [] => some []
  | high :: low :: rest =>
      match digitValue? high, digitValue? low, decodeOctets? rest with
      | some high, some low, some bytes => some (UInt8.ofNat (high * 16 + low) :: bytes)
      | _, _, _ => none
  | _ => none

def decode? (text : String) : Option Bytes :=
  decodeOctets? text.toList

end JoseTokens.Hex
