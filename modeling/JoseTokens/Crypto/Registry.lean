import JoseTokens.Crypto.Adapter

namespace JoseTokens

structure Registration (m : Type → Type) where
  adapter : Adapter m
  scope : Scope
  storage : List StorageClass

namespace Registration

variable {m : Type → Type}

def serves (r : Registration m) (scope : Scope) (reference : Option Reference) : Bool :=
  r.scope == scope &&
    match reference with
    | none => true
    | some reference => r.storage.contains reference.storage

def scopeDescription : Scope → String
  | .inHand => "Public"
  | .kept => "Private"

def storageDescription : StorageClass → String
  | .key => "Key"
  | .secret => "Secret"

def description (r : Registration m) : String :=
  Text.describeFields "Registration" [("adapter", Text.quoted r.adapter.name),
    ("scope", scopeDescription r.scope),
    ("storage_classes",
      "[" ++ String.intercalate ", " (r.storage.map storageDescription) ++ "]")]

end Registration

structure Registry.Entry (m : Type → Type) where
  capability : Capability
  algorithm : String
  registration : Registration m

structure Registry (m : Type → Type) where
  entries : List (Registry.Entry m) := []

namespace Registry

variable {m : Type → Type}

def anyAlgorithm : String := "*"

def register (r : Registry m) (capability : Capability) (algorithm : String)
    (registration : Registration m) : Registry m :=
  ⟨⟨capability, algorithm, registration⟩ :: r.entries⟩

def lookup? (r : Registry m) (capability : Capability) (algorithm : String) (scope : Scope)
    (reference : Option Reference) : Option (Registration m) :=
  (r.entries.find? fun entry =>
    entry.capability == capability && entry.algorithm == algorithm &&
      entry.registration.serves scope reference).map (·.registration)

def resolve (r : Registry m) (capability : Capability) (algorithm : String) (scope : Scope)
    (reference : Option Reference) : Except Error (Adapter m) :=
  match (r.lookup? capability algorithm scope reference).or
      (r.lookup? capability anyAlgorithm scope reference) with
  | some registration => .ok registration.adapter
  | none => .error (.noAdapter capability algorithm scope)

def resolveFor (r : Registry m) (a : Algorithm) (scope : Scope) (reference : Option Reference) :
    Except Error (Adapter m) := do
  r.resolve a.capability (← a.toId) scope reference

def pairCount (r : Registry m) : Nat :=
  (r.entries.map fun entry => (entry.capability, entry.algorithm)).eraseDups.length

def ofAdapter (adapter : Adapter m) : Registry m :=
  let ids := Algorithm.supported.flatMap (·.2)
  let pairs := ids.filterMap fun id => (Capability.ofName? id).map fun c => (c, id)
  pairs.foldl (fun r (capability, id) =>
    [Scope.inHand, Scope.kept].foldl (fun r scope =>
      r.register capability id ⟨adapter, scope, [.key, .secret]⟩) r) {}

end Registry

end JoseTokens
