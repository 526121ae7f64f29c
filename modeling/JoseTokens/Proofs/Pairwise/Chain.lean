import JoseTokens.Pairwise.Session
import JoseTokens.Proofs.Hash.Keyed
import JoseTokens.Proofs.Outcome
import JoseTokens.Proofs.Text.Octets

namespace JoseTokens.Pairwise

namespace Session

inductive Opened (seed : Bytes) : Session → Prop
  | start : Opened seed { seed }
  | masterKey {s : Session} (persona : String) :
      Opened seed s → Opened seed (s.masterKey persona).2
  | derive {s : Session} (request : KeyRequest) (persona peer : String) :
      Opened seed s → Opened seed (s.derive request persona peer).2

def Remembers (seed : Bytes) (s : Session) : Prop :=
  s.seed = seed ∧
    ∀ persona key, Json.find? persona s.personas = some key → key = personaKey seed persona

variable {seed : Bytes} {s : Session} {request : KeyRequest} {persona peer : String}

theorem Remembers.masterKey (h : Remembers seed s) (persona : String) :
    (s.masterKey persona).1 = personaKey seed persona ∧
      Remembers seed (s.masterKey persona).2 := by
  rw [Session.masterKey]
  split
  next key hfound => exact ⟨h.2 persona key hfound, h⟩
  · refine ⟨by rw [h.1], h.1, fun other key hfound => ?_⟩
    rw [Json.find?] at hfound
    split at hfound
    next heq =>
      cases hfound
      rw [h.1, heq]
    · exact h.2 other key hfound

theorem derive_of_remembers (h : Remembers seed s) :
    (s.derive request persona peer).1 = (Target.ofRequest request).bind
      (fun target => target.derive (peerSeed (personaKey seed persona) peer)) ∧
    Remembers seed (s.derive request persona peer).2 := by
  rw [Session.derive]
  split
  next htarget => exact ⟨by simp only [htarget, Except.bind], h⟩
  next target htarget =>
    obtain ⟨hkey, hs⟩ := h.masterKey persona
    exact ⟨by simp only [htarget, Except.bind, hkey], hs⟩

theorem Opened.remembers (h : Opened seed s) : Remembers seed s := by
  induction h with
  | start => exact ⟨rfl, fun _ _ hfound => nomatch hfound⟩
  | masterKey persona _ ih => exact (ih.masterKey persona).2
  | derive request persona peer _ ih => exact (derive_of_remembers ih).2

theorem Opened.derive_eq (h : Opened seed s) :
    (s.derive request persona peer).1 = (Target.ofRequest request).bind
      fun target => target.derive (peerSeed (personaKey seed persona) peer) :=
  (derive_of_remembers h.remembers).1

end Session

def triedFrom (seed : Bytes) : Nat → Nat → List Nat
  | 0, _ => []
  | fuel + 1, counter =>
      match Secp256k1.scalar? (scalarCandidate seed counter) with
      | some _ => [counter]
      | none => counter :: triedFrom seed fuel (counter + 1)

def tried (seed : Bytes) : List Nat :=
  triedFrom seed counters 0

theorem scalarFrom?_tried {seed : Bytes} {fuel counter d : Nat}
    (h : scalarFrom? seed fuel counter = some d) :
    ∃ i ∈ triedFrom seed fuel counter, Secp256k1.scalar? (scalarCandidate seed i) = some d := by
  induction fuel generalizing counter with
  | zero => cases h
  | succ fuel ih =>
      rw [scalarFrom?] at h
      rw [triedFrom]
      cases hfound : Secp256k1.scalar? (scalarCandidate seed counter) with
      | some found =>
          simp only [hfound] at h
          cases h
          exact ⟨counter, List.mem_singleton_self _, hfound⟩
      | none =>
          simp only [hfound] at h
          obtain ⟨i, hi, hscalar⟩ := ih h
          exact ⟨i, List.mem_cons_of_mem _ hi, hscalar⟩

theorem ofNat_of_scalar? {bytes : Bytes} {d : Nat} (hlength : bytes.length = 32)
    (h : Secp256k1.scalar? bytes = some d) : Bytes.ofNat 32 d = bytes := by
  simp only [Secp256k1.scalar?] at h
  split at h
  · cases h
    rw [← hlength, Bytes.ofNat_toNat]
  · cases h

def privateScalar? (key : Jwk) : Option Bytes :=
  match key.material with
  | .ec _ d => d
  | _ => none

theorem privateScalar?_derive {seed : Bytes} {s : Session} {curve persona peer : String} {key : Jwk}
    (hs : s.Opened seed) (h : (s.derive (.ecdsa curve) persona peer).1 = .ok key) :
    ∃ i ∈ tried (peerSeed (personaKey seed persona) peer), privateScalar? key =
      some (scalarCandidate (peerSeed (personaKey seed persona) peer) i) := by
  rw [hs.derive_eq] at h
  obtain ⟨target, htarget, h⟩ := bind_eq_ok h
  have hcurve : target = .secp256k1 := by
    rw [Target.ofRequest] at htarget
    split at htarget <;> cases htarget
    rfl
  subst hcurve
  rw [Target.derive] at h
  split at h
  next d hd =>
    cases h
    obtain ⟨i, hi, hscalar⟩ := scalarFrom?_tried hd
    refine ⟨i, hi, congrArg some (ofNat_of_scalar? ?_ hscalar)⟩
    exact HashName.length_hmac .sha256 _ _
  · cases h

def chain (texts : HashName → Bytes → Bytes → List Bytes) (seed : Bytes) (persona peer : String) :
    HashName → List Bytes
  | .sha512 =>
      texts .sha512 seed (Bytes.ofText persona) ++
        texts .sha512 (personaKey seed persona) (Bytes.ofText peer)
  | .sha256 =>
      let seed := peerSeed (personaKey seed persona) peer
      (tried seed).flatMap fun counter => texts .sha256 seed (Bytes.ofNat 4 counter)
  | _ => []

abbrev keyedTexts : Bytes → String → String → HashName → List Bytes :=
  chain HashName.rounds

abbrev hashedTexts : Bytes → String → String → HashName → List Bytes :=
  chain HashName.messages

def Collide (a b : HashName → List Bytes) : Prop :=
  HashName.sha512.Collision (a .sha512 ++ b .sha512) ∨
    HashName.sha256.Collision (a .sha256 ++ b .sha256)

instance (a b : HashName → List Bytes) : Decidable (Collide a b) := by
  unfold Collide
  infer_instance

theorem Collide.mono {a b a' b' : HashName → List Bytes} (h : Collide a b)
    (ha : ∀ hash, a hash ⊆ a' hash) (hb : ∀ hash, b hash ⊆ b' hash) : Collide a' b' :=
  h.imp (fun h => h.append (ha _) (hb _)) fun h => h.append (ha _) (hb _)

theorem keyedTexts_subset (seed : Bytes) (persona peer : String) (hash : HashName) :
    keyedTexts seed persona peer hash ⊆ hashedTexts seed persona peer hash := by
  cases hash with
  | sha1 => exact List.Subset.refl _
  | sha384 => exact List.Subset.refl _
  | sha512 =>
      exact List.append_subset.mpr
        ⟨List.subset_append_of_subset_left _ (HashName.rounds_subset_messages _ _ _),
          List.subset_append_of_subset_right _ (HashName.rounds_subset_messages _ _ _)⟩
  | sha256 =>
      intro text htext
      obtain ⟨counter, hcounter, htext⟩ := List.mem_flatMap.mp htext
      exact List.mem_flatMap.mpr
        ⟨counter, hcounter, HashName.rounds_subset_messages _ _ _ htext⟩

section

variable {seed seed' : Bytes} {persona persona' peer peer' : String}

theorem length_personaKey : (personaKey seed persona).length = 64 :=
  HashName.length_hmac .sha512 _ _

theorem length_peerSeed : (peerSeed seed peer).length = 64 :=
  HashName.length_hmac .sha512 _ _

theorem eq_or_collide_of_peerSeed
    (h : peerSeed (personaKey seed persona) peer = peerSeed (personaKey seed' persona') peer') :
    (HashName.sha512.keyBlock seed = HashName.sha512.keyBlock seed' ∧ persona = persona' ∧
      peer = peer') ∨
    Collide (keyedTexts seed persona peer) (keyedTexts seed' persona' peer') := by
  rcases HashName.eq_or_collision_of_hmac h with ⟨hblock, hpeer⟩ | hcollision
  · have hkey : personaKey seed persona = personaKey seed' persona' :=
      HashName.keyBlock_inj (Nat.le_trans (Nat.le_of_eq length_personaKey) (by decide))
        (length_personaKey.trans length_personaKey.symm) hblock
    rcases HashName.eq_or_collision_of_hmac hkey with ⟨hseed, hpersona⟩ | hcollision
    · exact .inl ⟨hseed, Bytes.ofText_injective hpersona, Bytes.ofText_injective hpeer⟩
    · exact .inr (.inl (hcollision.append (List.subset_append_left _ _)
        (List.subset_append_left _ _)))
  · exact .inr (.inl (hcollision.append (List.subset_append_right _ _)
      (List.subset_append_right _ _)))

theorem eq_or_collide_of_candidate {i j : Nat}
    (hi : i ∈ tried (peerSeed (personaKey seed persona) peer))
    (hj : j ∈ tried (peerSeed (personaKey seed' persona') peer'))
    (h : scalarCandidate (peerSeed (personaKey seed persona) peer) i =
      scalarCandidate (peerSeed (personaKey seed' persona') peer') j) :
    peerSeed (personaKey seed persona) peer = peerSeed (personaKey seed' persona') peer' ∨
    Collide (keyedTexts seed persona peer) (keyedTexts seed' persona' peer') := by
  rcases HashName.eq_or_collision_of_hmac h with ⟨hblock, _⟩ | hcollision
  · exact .inl (HashName.keyBlock_inj (Nat.le_trans (Nat.le_of_eq length_peerSeed) (by decide))
      (length_peerSeed.trans length_peerSeed.symm) hblock)
  · refine .inr (.inr (hcollision.append ?_ ?_))
    · exact fun text htext => List.mem_flatMap.mpr ⟨i, hi, htext⟩
    · exact fun text htext => List.mem_flatMap.mpr ⟨j, hj, htext⟩

theorem origin_or_collide {s s' : Session} {curve curve' : String} {key key' : Jwk}
    (hs : s.Opened seed) (hs' : s'.Opened seed')
    (hkey : (s.derive (.ecdsa curve) persona peer).1 = .ok key)
    (hkey' : (s'.derive (.ecdsa curve') persona' peer').1 = .ok key')
    (hscalar : privateScalar? key = privateScalar? key') :
    (HashName.sha512.keyBlock seed = HashName.sha512.keyBlock seed' ∧ persona = persona' ∧
      peer = peer') ∨
    Collide (keyedTexts seed persona peer) (keyedTexts seed' persona' peer') := by
  obtain ⟨i, hi, hcandidate⟩ := privateScalar?_derive hs hkey
  obtain ⟨j, hj, hcandidate'⟩ := privateScalar?_derive hs' hkey'
  rw [hcandidate, hcandidate', Option.some.injEq] at hscalar
  rcases eq_or_collide_of_candidate hi hj hscalar with hpeer | hcollide
  · exact eq_or_collide_of_peerSeed hpeer
  · exact .inr hcollide

end

end JoseTokens.Pairwise
