import JoseTokens.Token.Description
import JoseTokens.Proofs.Key.Halves
import JoseTokens.Proofs.Pairwise.Separation
import JoseTokens.Proofs.Pairwise.Remembering
import JoseTokens.Proofs.Pairwise.Primes
import JoseTokens.Proofs.Token.Agreement
import JoseTokens.Proofs.Token.CompactText
import JoseTokens.Proofs.Token.Signers
import JoseTokens.Proofs.Token.Received
import JoseTokens.Proofs.Token.AnySignature
import JoseTokens.Proofs.Token.JwsGrammar
import JoseTokens.Proofs.Store.Interruption
import JoseTokens.Proofs.Crypto.Routing
import JoseTokens.Proofs.Key.RoundTrip
import JoseTokens.Proofs.Token.CoveredText
import JoseTokens.Proofs.Token.Candidates
import JoseTokens.Proofs.Token.TrialOrder
import JoseTokens.Proofs.Token.EntryOrder
import JoseTokens.Proofs.Pairwise.Scalars
import JoseTokens.Proofs.Pairwise.Algorithms
import JoseTokens.Proofs.Pairwise.Lengths
import JoseTokens.Proofs.Engine.Generation
import JoseTokens.Proofs.Engine.Verifying
import JoseTokens.Proofs.Store.PublicView
import JoseTokens.Proofs.Key.Thumbprint
import JoseTokens.Proofs.Token.ProtectedMembers
import JoseTokens.Proofs.Curve.Ecdsa
import JoseTokens.Proofs.Key.Refusals
import JoseTokens.Proofs.Crypto.ContentCipher
import JoseTokens.Proofs.Store.Confinement
