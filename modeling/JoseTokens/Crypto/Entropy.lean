import JoseTokens.Bytes

namespace JoseTokens

structure Entropy where
  octet : Nat → UInt8

namespace Entropy

def take (e : Entropy) (count : Nat) : Bytes :=
  (List.range count).map e.octet

def drop (e : Entropy) (count : Nat) : Entropy :=
  ⟨fun i => e.octet (count + i)⟩

def left (e : Entropy) : Entropy :=
  ⟨fun i => e.octet (2 * i)⟩

def right (e : Entropy) : Entropy :=
  ⟨fun i => e.octet (2 * i + 1)⟩

end Entropy

end JoseTokens
