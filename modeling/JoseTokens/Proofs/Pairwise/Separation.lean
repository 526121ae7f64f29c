import JoseTokens.Proofs.Pairwise.Chain

namespace JoseTokens.Pairwise

theorem derive_separates_relationships {seed : Bytes} {s s' : Session} (hs : s.Opened seed)
    (hs' : s'.Opened seed) {curve curve' persona persona' peer peer' : String} {key key' : Jwk}
    (hkey : (s.derive (.ecdsa curve) persona peer).1 = .ok key)
    (hkey' : (s'.derive (.ecdsa curve') persona' peer').1 = .ok key')
    (hother : (persona, peer) ≠ (persona', peer')) :
    privateScalar? key ≠ privateScalar? key' ∨
      Collide (keyedTexts seed persona peer) (keyedTexts seed persona' peer') := by
  by_cases hscalar : privateScalar? key = privateScalar? key'
  · rcases origin_or_collide hs hs' hkey hkey' hscalar with ⟨_, hpersona, hpeer⟩ | hcollide
    · exact absurd (by rw [hpersona, hpeer]) hother
    · exact .inr hcollide
  · exact .inl hscalar

def servedSession : Session :=
  (({ seed := [7] } : Session).derive (.ecdsa "secp256k1") "a" "b").2

theorem exists_served :
    ∃ key, (({ seed := [7] } : Session).derive (.ecdsa "secp256k1") "a" "b").1 = .ok key :=
  exists_of_isOk (by decide +kernel)

theorem derive_separates_swapped : ∃ key key',
    Session.Opened [7] { seed := [7] } ∧ servedSession.Opened [7] ∧
    (({ seed := [7] } : Session).derive (.ecdsa "secp256k1") "a" "b").1 = .ok key ∧
    (servedSession.derive (.ecdsa "P-256K") "b" "a").1 = .ok key' ∧
    ("a", "b") ≠ ("b", "a") ∧
    (privateScalar? key ≠ privateScalar? key' ∨
      Collide (keyedTexts [7] "a" "b") (keyedTexts [7] "b" "a")) := by
  have hstart : Session.Opened [7] { seed := [7] } := .start
  have hserved : servedSession.Opened [7] := hstart.derive _ _ _
  obtain ⟨key, hkey⟩ := exists_served
  obtain ⟨key', hkey'⟩ := exists_of_isOk
    (x := (servedSession.derive (.ecdsa "P-256K") "b" "a").1) (by decide +kernel)
  have hother : ("a", "b") ≠ ("b", "a") := by decide
  exact ⟨key, key', hstart, hserved, hkey, hkey', hother,
    derive_separates_relationships hstart hserved hkey hkey' hother⟩

/-- Seeds that a keyed hash can tell apart: their blocks differ, or both are hashed to make one. -/
def Distinguished (seed seed' : Bytes) : Prop :=
  HashName.sha512.keyBlock seed ≠ HashName.sha512.keyBlock seed' ∨
    (seed ≠ seed' ∧ HashName.sha512.blockSize < seed.length ∧
      HashName.sha512.blockSize < seed'.length)

instance (seed seed' : Bytes) : Decidable (Distinguished seed seed') := by
  unfold Distinguished
  infer_instance

theorem mem_hashedTexts_of_long {seed : Bytes} (persona peer : String)
    (hlong : HashName.sha512.blockSize < seed.length) :
    seed ∈ hashedTexts seed persona peer .sha512 := by
  simp [chain, HashName.messages, hlong]

theorem collide_of_keyBlock {seed seed' : Bytes} (persona peer : String)
    (hseeds : Distinguished seed seed')
    (hblock : HashName.sha512.keyBlock seed = HashName.sha512.keyBlock seed') :
    Collide (hashedTexts seed persona peer) (hashedTexts seed' persona peer) := by
  obtain ⟨hne, hlong, hlong'⟩ := hseeds.resolve_left fun h => h hblock
  exact .inl ⟨seed, List.mem_append_left _ (mem_hashedTexts_of_long persona peer hlong), seed',
    List.mem_append_right _ (mem_hashedTexts_of_long persona peer hlong'), hne,
    HashName.digest_eq_of_keyBlock hlong hlong' hblock⟩

theorem derive_separates_seeds {seed seed' : Bytes} {s s' : Session} (hs : s.Opened seed)
    (hs' : s'.Opened seed') (hseeds : Distinguished seed seed')
    {curve curve' persona peer : String} {key key' : Jwk}
    (hkey : (s.derive (.ecdsa curve) persona peer).1 = .ok key)
    (hkey' : (s'.derive (.ecdsa curve') persona peer).1 = .ok key') :
    privateScalar? key ≠ privateScalar? key' ∨
      Collide (hashedTexts seed persona peer) (hashedTexts seed' persona peer) := by
  by_cases hscalar : privateScalar? key = privateScalar? key'
  · rcases origin_or_collide hs hs' hkey hkey' hscalar with ⟨hblock, _⟩ | hcollide
    · exact .inr (collide_of_keyBlock persona peer hseeds hblock)
    · exact .inr (hcollide.mono (keyedTexts_subset _ _ _) (keyedTexts_subset _ _ _))
  · exact .inl hscalar

theorem derive_separates_lengths : ∃ key key',
    Session.Opened [7] { seed := [7] } ∧
    Session.Opened (List.replicate 129 7) { seed := List.replicate 129 7 } ∧
    Distinguished [7] (List.replicate 129 7) ∧
    (({ seed := [7] } : Session).derive (.ecdsa "secp256k1") "a" "b").1 = .ok key ∧
    (({ seed := List.replicate 129 7 } : Session).derive (.ecdsa "secp256k1") "a" "b").1 =
      .ok key' ∧
    (privateScalar? key ≠ privateScalar? key' ∨
      Collide (hashedTexts [7] "a" "b") (hashedTexts (List.replicate 129 7) "a" "b")) := by
  obtain ⟨key, hkey⟩ := exists_served
  obtain ⟨key', hkey'⟩ := exists_of_isOk
    (x := (({ seed := List.replicate 129 7 } : Session).derive (.ecdsa "secp256k1") "a" "b").1)
    (by decide +kernel)
  have hseeds : Distinguished [7] (List.replicate 129 7) := by decide +kernel
  exact ⟨key, key', .start, .start, hseeds, hkey, hkey',
    derive_separates_seeds .start .start hseeds hkey hkey'⟩

theorem derive_congr {seed seed' : Bytes} {s s' : Session} (hs : s.Opened seed)
    (hs' : s'.Opened seed')
    (hblock : HashName.sha512.keyBlock seed = HashName.sha512.keyBlock seed')
    (request : KeyRequest) (persona peer : String) :
    (s.derive request persona peer).1 = (s'.derive request persona peer).1 := by
  have hkey : personaKey seed persona = personaKey seed' persona := HashName.hmac_congr hblock _
  rw [hs.derive_eq, hs'.derive_eq, hkey]

theorem hashedTexts_congr {seed seed' : Bytes}
    (hblock : HashName.sha512.keyBlock seed = HashName.sha512.keyBlock seed')
    (hshort : seed.length ≤ HashName.sha512.blockSize)
    (hshort' : seed'.length ≤ HashName.sha512.blockSize) (persona peer : String) :
    hashedTexts seed persona peer = hashedTexts seed' persona peer := by
  have hkey : personaKey seed persona = personaKey seed' persona := HashName.hmac_congr hblock _
  have htexts (data : Bytes) :
      HashName.sha512.messages seed data = HashName.sha512.messages seed' data := by
    simp only [HashName.messages, if_neg (Nat.not_lt.mpr hshort), if_neg (Nat.not_lt.mpr hshort'),
      HashName.rounds, HashName.outerInput, HashName.innerInput, hblock]
  funext hash
  cases hash <;> simp only [chain, hkey, htexts]

theorem Collide.of_self {a : HashName → List Bytes} (h : Collide a a) : Collide a fun _ => [] :=
  h.imp (fun h => h.mono (by simp)) fun h => h.mono (by simp)

theorem not_derive_separates_seeds :
    ¬ ∀ seed seed' : Bytes, seed ≠ seed' → ∀ s s' : Session, s.Opened seed → s'.Opened seed' →
      ∀ curve persona peer key key', (s.derive (.ecdsa curve) persona peer).1 = .ok key →
      (s'.derive (.ecdsa curve) persona peer).1 = .ok key' →
      privateScalar? key ≠ privateScalar? key' ∨
        Collide (hashedTexts seed persona peer) (hashedTexts seed' persona peer) := by
  intro h
  obtain ⟨key, hkey⟩ := exists_served
  -- The zero is what the block of the shorter seed is filled up with.
  have hblock : HashName.sha512.keyBlock [7, 0] = HashName.sha512.keyBlock [7] := by
    decide +kernel
  have hkey' : (({ seed := [7, 0] } : Session).derive (.ecdsa "secp256k1") "a" "b").1 =
      .ok key := by
    rw [derive_congr .start .start hblock, hkey]
  rcases h [7] [7, 0] (by decide) _ _ .start .start _ _ _ _ _ hkey hkey' with hne | hcollide
  · exact hne rfl
  · rw [hashedTexts_congr hblock (by decide) (by decide)] at hcollide
    exact absurd hcollide.of_self (by decide +kernel)

end JoseTokens.Pairwise
