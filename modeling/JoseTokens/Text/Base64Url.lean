import JoseTokens.Bytes

namespace JoseTokens.Base64Url

def symbol (n : Nat) : Char :=
  if n < 26 then Char.ofNat (65 + n)
  else if n < 52 then Char.ofNat (71 + n)
  else if n < 62 then Char.ofNat (n - 4)
  else if n = 62 then '-'
  else '_'

def value? (b : UInt8) : Option Nat :=
  let n := b.toNat
  if 65 ≤ n ∧ n ≤ 90 then some (n - 65)
  else if 97 ≤ n ∧ n ≤ 122 then some (n - 71)
  else if 48 ≤ n ∧ n ≤ 57 then some (n + 4)
  else if n = 45 then some 62
  else if n = 95 then some 63
  else none

def sextets : Bytes → List Nat
  | [] => []
  | [a] => [a.toNat / 4, a.toNat % 4 * 16]
  | [a, b] => [a.toNat / 4, a.toNat % 4 * 16 + b.toNat / 16, b.toNat % 16 * 4]
  | a :: b :: c :: rest =>
      a.toNat / 4 :: (a.toNat % 4 * 16 + b.toNat / 16) :: (b.toNat % 16 * 4 + c.toNat / 64) ::
        c.toNat % 64 :: sextets rest

def octets : List Nat → Bytes
  | [] => []
  | [_] => []
  | [p, q] => [UInt8.ofNat (p * 4 + q / 16)]
  | [p, q, r] => [UInt8.ofNat (p * 4 + q / 16), UInt8.ofNat (q % 16 * 16 + r / 4)]
  | p :: q :: r :: s :: rest =>
      UInt8.ofNat (p * 4 + q / 16) :: UInt8.ofNat (q % 16 * 16 + r / 4) ::
        UInt8.ofNat (r % 4 * 64 + s) :: octets rest

def encode (bytes : Bytes) : String :=
  String.ofList ((sextets bytes).map symbol)

inductive Fault where
  | invalidByte (offset : Nat) (byte : UInt8)
  | invalidLength
  | invalidPadding
  | invalidLastSymbol (offset : Nat) (byte : UInt8)
  deriving DecidableEq, Repr

def Fault.message : Fault → String
  | .invalidByte offset byte => s!"Invalid byte {byte.toNat}, offset {offset}."
  | .invalidLength => "Encoded text cannot have a 6-bit remainder."
  | .invalidPadding => "Invalid padding"
  | .invalidLastSymbol offset byte => s!"Invalid last symbol {byte.toNat}, offset {offset}."

def pad : UInt8 := 61

def foreignByte? (offset : Nat) : Bytes → Option Fault
  | [] => none
  | b :: rest =>
      if (value? b).isNone then some (.invalidByte offset b) else foreignByte? (offset + 1) rest

def pieceFault? (start position : Nat) (padAt : Option Nat) : Bytes → Option Fault
  | [] => padAt.map fun _ => .invalidPadding
  | b :: rest =>
      if b = pad then
        let first := padAt.getD (start + position)
        if position % 4 < 2 then some (.invalidByte first pad)
        else pieceFault? start (position + 1) (some first) rest
      else match padAt with
        | some first => some (.invalidByte first pad)
        | none =>
            if (value? b).isNone then some (.invalidByte (start + position) b)
            else pieceFault? start (position + 1) none rest

def spareBits (length last : Nat) : Nat :=
  match length % 4 with
  | 2 => last % 16
  | 3 => last % 4
  | _ => 0

def lastSymbolFault? (text : Bytes) : Option Fault :=
  match text.getLast? with
  | none => none
  | some b =>
      if spareBits text.length ((value? b).getD 0) = 0 then none
      else some (.invalidLastSymbol (text.length - 1) b)

/-- What keeps a text from being read. A length that no octet string has is looked at first, then
all pieces of eight but the last, then the last piece, then the unused bits. -/
def fault? (text : Bytes) : Option Fault :=
  if text.length % 4 = 1 then
    match text.getLast? with
    | some b =>
        if b = pad ∨ (value? b).isSome then some .invalidLength
        else some (.invalidByte (text.length - 1) b)
    | none => none
  else
    let start := (text.length - 1) / 8 * 8
    (foreignByte? 0 (text.take start)).or
      ((pieceFault? start 0 none (text.drop start)).or (lastSymbolFault? text))

def decode (text : String) : Except Fault Bytes :=
  let bytes := Bytes.ofText text
  match fault? bytes with
  | some fault => .error fault
  | none => .ok (octets (bytes.filterMap value?))

end JoseTokens.Base64Url
