namespace JoseTokens

abbrev Bytes := List UInt8

namespace Bytes

def ofText (text : String) : Bytes :=
  text.toUTF8.data.toList

def toText? (bytes : Bytes) : Option String :=
  String.fromUTF8? ⟨bytes.toArray⟩

def toNat (bytes : Bytes) : Nat :=
  bytes.foldl (fun n b => n * 256 + b.toNat) 0

def ofNatOnto : Nat → Nat → Bytes → Bytes
  | 0, _, tail => tail
  | width + 1, n, tail => ofNatOnto width (n / 256) (UInt8.ofNat n :: tail)

def ofNat (width n : Nat) : Bytes :=
  ofNatOnto width n []

def width (n : Nat) : Nat :=
  n.log2 / 8 + 1

def minimal (n : Nat) : Bytes :=
  ofNat (width n) n

def toNatLittle (bytes : Bytes) : Nat :=
  bytes.foldr (fun b n => b.toNat + 256 * n) 0

def ofNatLittle : Nat → Nat → Bytes
  | 0, _ => []
  | width + 1, n => UInt8.ofNat n :: ofNatLittle width (n / 256)

def xor (a b : Bytes) : Bytes :=
  List.zipWith (· ^^^ ·) a b

def chunksWithin (size : Nat) : Nat → Bytes → List Bytes
  | 0, _ => []
  | _, [] => []
  | fuel + 1, bytes => bytes.take size :: chunksWithin size fuel (bytes.drop size)

def chunks (size : Nat) (bytes : Bytes) : List Bytes :=
  chunksWithin size bytes.length bytes

end Bytes

end JoseTokens
