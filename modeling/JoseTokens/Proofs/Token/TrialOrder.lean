import JoseTokens.Proofs.Token.Received
import JoseTokens.Proofs.Token.Verification

namespace JoseTokens

namespace Engine

end Engine

namespace Algorithm

end Algorithm

namespace Jwe

section

variable {e : Engine (Except Error)} {t : Jwe} {own : Jwk} {reference : Reference}
  {kid : Option String}

def entries (t : Jwe) : List (Nat × Recipient) :=
  t.recipients.zipIdx.map fun (r, i) => (i, r)

def part (t : Jwe) (kid : Option String) (named : Bool) : List (Nat × Recipient) :=
  t.entries.filter fun p => t.isNamed kid p.2 == named

end

end Jwe

end JoseTokens
