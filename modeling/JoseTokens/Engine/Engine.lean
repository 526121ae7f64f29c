import JoseTokens.Crypto.Registry
import JoseTokens.Store.KeyStore

namespace JoseTokens

structure Engine (m : Type → Type) where
  config : Config := {}
  store : KeyStore := .memory {}
  registry : Registry m := {}

namespace Engine

variable {m : Type → Type}

def description (e : Engine m) : String :=
  let config := Text.describeFields "JoseConfig" [
    ("default_content_encryption", Text.quoted e.config.contentEncryption),
    ("default_key_encryption", Text.quoted e.config.keyEncryption),
    ("default_rsa_modulus_length", toString e.config.modulusBits),
    ("verify_all_signatures", toString e.config.verifyAllSignatures)]
  Text.describeFields "CryptoFactory"
    [("config", config), ("registrations", toString e.registry.pairCount)]

variable [Monad m] [MonadExceptOf Error m]

def withSoftware (config : Config) (store : KeyStore) : Engine m where
  config
  store
  registry := .ofAdapter .software

end Engine

end JoseTokens
