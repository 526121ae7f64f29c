import JoseTokens.Proofs.Pairwise.Chain

namespace JoseTokens.Pairwise

inductive Call where
  | masterKey (persona : String)
  | derive (request : KeyRequest) (persona peer : String)
  deriving DecidableEq, Repr

inductive Answer where
  | masterKey (key : Bytes)
  | derived (result : Except Error Jwk)

namespace Session

def perform (s : Session) : Call → Answer × Session
  | .masterKey persona =>
      let (key, s) := s.masterKey persona
      (.masterKey key, s)
  | .derive request persona peer =>
      let (result, s) := s.derive request persona peer
      (.derived result, s)

def answers (s : Session) : List Call → List Answer
  | [] => []
  | call :: calls => (s.perform call).1 :: (s.perform call).2.answers calls

def after (s : Session) : List Call → Session
  | [] => s
  | call :: calls => (s.perform call).2.after calls

def Keeps (seed : Bytes) (s : Session) : Prop :=
  s.seed = seed ∧ ∀ entry ∈ s.personas, entry.2 = personaKey seed entry.1

variable {seed : Bytes} {s : Session}

theorem keeps_new (seed : Bytes) : Keeps seed { seed } :=
  ⟨rfl, fun _ hentry => nomatch hentry⟩

theorem mem_of_find? {persona : String} {key : Bytes} {personas : List (String × Bytes)}
    (h : Json.find? persona personas = some key) : (persona, key) ∈ personas := by
  induction personas with
  | nil => cases h
  | cons entry personas ih =>
      obtain ⟨other, otherKey⟩ := entry
      rw [Json.find?] at h
      split at h
      next heq =>
        cases h
        exact heq ▸ List.mem_cons_self
      · exact List.mem_cons_of_mem _ (ih h)

theorem Keeps.remembers (h : Keeps seed s) : Remembers seed s :=
  ⟨h.1, fun _ _ hfound => h.2 _ (mem_of_find? hfound)⟩

theorem Keeps.masterKey (h : Keeps seed s) (persona : String) :
    Keeps seed (s.masterKey persona).2 := by
  rw [Session.masterKey]
  split
  · exact h
  · exact ⟨h.1, List.forall_mem_cons.mpr ⟨congrArg (personaKey · persona) h.1, h.2⟩⟩

theorem Keeps.derive (h : Keeps seed s) (request : KeyRequest) (persona peer : String) :
    Keeps seed (s.derive request persona peer).2 := by
  rw [Session.derive]
  split
  · exact h
  · exact h.masterKey persona

theorem Keeps.perform (h : Keeps seed s) (call : Call) : Keeps seed (s.perform call).2 := by
  cases call with
  | masterKey persona => exact h.masterKey persona
  | derive request persona peer => exact h.derive request persona peer

theorem Remembers.perform_eq {s' : Session} (h : Remembers seed s) (h' : Remembers seed s')
    (call : Call) : (s.perform call).1 = (s'.perform call).1 := by
  cases call with
  | masterKey persona =>
      exact congrArg Answer.masterKey
        ((h.masterKey persona).1.trans (h'.masterKey persona).1.symm)
  | derive request persona peer =>
      exact congrArg Answer.derived
        ((derive_of_remembers h).1.trans (derive_of_remembers h').1.symm)

theorem Keeps.after (h : Keeps seed s) (calls : List Call) : Keeps seed (s.after calls) := by
  induction calls generalizing s with
  | nil => exact h
  | cons call calls ih => exact ih (h.perform call)

theorem Keeps.answers_eq (h : Keeps seed s) (calls : List Call) :
    s.answers calls = calls.map fun call => (({ seed } : Session).perform call).1 := by
  induction calls generalizing s with
  | nil => rfl
  | cons call calls ih =>
      have hcall := h.remembers.perform_eq (keeps_new seed).remembers call
      rw [answers, List.map_cons, hcall, ih (h.perform call)]

theorem answers_fresh (seed : Bytes) (calls : List Call) :
    ({ seed } : Session).answers calls =
      calls.map (fun call => (({ seed } : Session).perform call).1) ∧
    (({ seed } : Session).after calls).seed = seed ∧
    ∀ persona key, (persona, key) ∈ (({ seed } : Session).after calls).personas →
      key = HashName.sha512.hmac seed (Bytes.ofText persona) := by
  have hkeeps := (keeps_new seed).after calls
  exact ⟨(keeps_new seed).answers_eq calls, hkeeps.1,
    fun persona key hentry => hkeeps.2 (persona, key) hentry⟩

end Session

end JoseTokens.Pairwise
