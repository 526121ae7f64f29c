import JoseTokens.Bytes

namespace JoseTokens.Sha1

structure State where
  a : UInt32
  b : UInt32
  c : UInt32
  d : UInt32
  e : UInt32
  deriving DecidableEq, Repr

def initial : State :=
  ⟨0x67452301, 0xefcdab89, 0x98badcfe, 0x10325476, 0xc3d2e1f0⟩

def rotate (x : UInt32) (n : UInt32) : UInt32 :=
  (x <<< n) ||| (x >>> (32 - n))

def schedule : Nat → List UInt32 → List UInt32
  | 0, _ => []
  | n + 1, window =>
      let next := rotate
        (window.getD 13 0 ^^^ window.getD 8 0 ^^^ window.getD 2 0 ^^^ window.getD 0 0) 1
      window.headD 0 :: schedule n (window.drop 1 ++ [next])

def mix (t : Nat) (b c d : UInt32) : UInt32 :=
  if t < 20 then ((b &&& c) ||| (~~~b &&& d)) + 0x5a827999
  else if t < 40 then (b ^^^ c ^^^ d) + 0x6ed9eba1
  else if t < 60 then ((b &&& c) ||| (b &&& d) ||| (c &&& d)) + 0x8f1bbcdc
  else (b ^^^ c ^^^ d) + 0xca62c1d6

def rounds : Nat → State → List UInt32 → State
  | _, s, [] => s
  | t, s, w :: ws =>
      let next := rotate s.a 5 + mix t s.b s.c s.d + s.e + w
      rounds (t + 1) ⟨next, s.a, rotate s.b 30, s.c, s.d⟩ ws

def words (block : Bytes) : List UInt32 :=
  (Bytes.chunks 4 block).map fun piece => UInt32.ofNat (Bytes.toNat piece)

def compress (s : State) (block : Bytes) : State :=
  let t := rounds 0 s (schedule 80 (words block))
  ⟨s.a + t.a, s.b + t.b, s.c + t.c, s.d + t.d, s.e + t.e⟩

def padding (length : Nat) : Bytes :=
  0x80 :: List.replicate ((119 - length % 64) % 64) 0 ++ Bytes.ofNat 8 (8 * length)

def output (s : State) : Bytes :=
  [s.a, s.b, s.c, s.d, s.e].flatMap fun w => Bytes.ofNat 4 w.toNat

def digest (message : Bytes) : Bytes :=
  output ((Bytes.chunks 64 (message ++ padding message.length)).foldl compress initial)

end JoseTokens.Sha1
