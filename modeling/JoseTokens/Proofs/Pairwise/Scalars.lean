import JoseTokens.Proofs.Key.Halves
import JoseTokens.Proofs.Pairwise.Primes
import JoseTokens.Proofs.Pairwise.Separation

namespace JoseTokens

namespace Pairwise

structure FirstScalar (seed : Bytes) (counter : Nat) : Prop where
  bound : counter < 2 ^ 32
  pos : 0 < Bytes.toNat (scalarCandidate seed counter)
  lt : Bytes.toNat (scalarCandidate seed counter) < Secp256k1.n
  first : ∀ earlier < counter, Bytes.toNat (scalarCandidate seed earlier) = 0 ∨
    Secp256k1.n ≤ Bytes.toNat (scalarCandidate seed earlier)

section

variable {seed : Bytes} {counter d : Nat}

theorem length_scalarCandidate : (scalarCandidate seed counter).length = 32 :=
  HashName.length_hmac .sha256 _ _

theorem scalar?_candidate : Secp256k1.scalar? (scalarCandidate seed counter) =
    if 0 < Bytes.toNat (scalarCandidate seed counter) ∧
        Bytes.toNat (scalarCandidate seed counter) < Secp256k1.n then
      some (Bytes.toNat (scalarCandidate seed counter))
    else none := by
  simp [Secp256k1.scalar?, length_scalarCandidate]

theorem scalarFrom?_eq_some_iff {fuel : Nat} : scalarFrom? seed fuel counter = some d ↔
    ∃ i < fuel, Secp256k1.scalar? (scalarCandidate seed (counter + i)) = some d ∧
      ∀ j < i, Secp256k1.scalar? (scalarCandidate seed (counter + j)) = none := by
  induction fuel generalizing counter with
  | zero => simp [scalarFrom?]
  | succ fuel ih =>
      -- The candidate at hand, or one of those that are counted from the next one on.
      rw [scalarFrom?, Nat.exists_lt_succ_left]
      simp only [Nat.forall_lt_succ_left, Nat.add_zero]
      cases hfound : Secp256k1.scalar? (scalarCandidate seed counter) with
      | some found => simp
      | none => simp [ih, Nat.add_assoc, Nat.add_comm 1]

theorem scalar?_eq_some_iff : scalar? seed = some d ↔
    ∃ i, FirstScalar seed i ∧ Bytes.toNat (scalarCandidate seed i) = d := by
  simp only [scalar?, scalarFrom?_eq_some_iff, Nat.zero_add, scalar?_candidate,
    Option.ite_none_right_eq_some, Option.some.injEq, ite_eq_right_iff, reduceCtorEq, imp_false]
  constructor
  · rintro ⟨i, hbound, ⟨⟨hpos, hlt⟩, hd⟩, hfirst⟩
    refine ⟨i, ⟨hbound, hpos, hlt, fun j hj => ?_⟩, hd⟩
    have := hfirst j hj
    omega
  · rintro ⟨i, ⟨hbound, hpos, hlt, hfirst⟩, hd⟩
    refine ⟨i, hbound, ⟨⟨hpos, hlt⟩, hd⟩, fun j hj => ?_⟩
    have := hfirst j hj
    omega

end

theorem Target.ofRequest_cases {request : KeyRequest} {target : Target}
    (h : Target.ofRequest request = .ok target) :
    (∃ curve, request = .ecdsa curve ∧ Curve.ofName? curve = some .secp256k1 ∧
      target = .secp256k1) ∨
    ∃ algorithm bits, request = .rsa algorithm bits ∧
      target = .rsa algorithm (bits.getD KeyRequest.defaultModulusBits) := by
  cases request with
  | ecdsa curve =>
      rw [Target.ofRequest] at h
      split at h
      next hcurve =>
        cases h
        exact .inl ⟨curve, rfl, hcurve, rfl⟩
      · cases h
  | rsa algorithm bits => exact .inr ⟨algorithm, bits, rfl, (ofRequest_rsa h).1⟩
  | eddsa => cases h
  | secret algorithm => cases h

theorem Target.derive_secp256k1_ok {seed : Bytes} {key : Jwk}
    (h : Target.derive seed .secp256k1 = .ok key) :
    ∃ d, scalar? seed = some d ∧ key = Jwk.withAlg { material := .ofScalar d } "ES256K" := by
  rw [Target.derive] at h
  split at h
  next d hd =>
    cases h
    exact ⟨d, hd, rfl⟩
  · cases h

theorem Target.derive_rsa_ok {seed : Bytes} {algorithm : String} {bits : Nat} {key : Jwk}
    (h : Target.derive seed (.rsa algorithm bits) = .ok key) :
    key.keyType = .rsa ∧ key.alg? = some algorithm := by
  rw [Target.derive_rsa] at h
  obtain ⟨numbers, -, h⟩ := bind_eq_ok h
  obtain ⟨material, hmaterial, h⟩ := bind_eq_ok h
  cases h
  refine ⟨?_, rfl⟩
  unfold Material.ofRsa at hmaterial
  split at hmaterial
  · split at hmaterial <;> cases hmaterial
    rfl
  · cases hmaterial

theorem keyType_ecdsa {seed : Bytes} {s : Session} (hs : s.Opened seed)
    {curve persona peer : String} {key : Jwk}
    (h : (s.derive (.ecdsa curve) persona peer).1 = .ok key) : key.keyType = .ec := by
  obtain ⟨target, htarget, hderive⟩ := bind_eq_ok (hs.derive_eq.symm.trans h)
  rcases Target.ofRequest_cases htarget with ⟨_, -, -, rfl⟩ | ⟨_, _, hrequest, -⟩
  · obtain ⟨d, -, rfl⟩ := Target.derive_secp256k1_ok hderive
    rfl
  · cases hrequest

theorem derive_scalar {seed : Bytes} {s : Session} (hs : s.Opened seed) {request : KeyRequest}
    {persona peer : String} {key : Jwk} (h : (s.derive request persona peer).1 = .ok key)
    (hkey : key.keyType = .ec) :
    ∃ i shown, FirstScalar (peerSeed (personaKey seed persona) peer) i ∧
      key.material = .ec shown (some
        (HashName.sha256.hmac (peerSeed (personaKey seed persona) peer) (Bytes.ofNat 4 i))) ∧
      Paired shown
        (HashName.sha256.hmac (peerSeed (personaKey seed persona) peer) (Bytes.ofNat 4 i)) := by
  obtain ⟨target, htarget, hderive⟩ := bind_eq_ok (hs.derive_eq.symm.trans h)
  rcases Target.ofRequest_cases htarget with ⟨curve, rfl, -, rfl⟩ | ⟨algorithm, bits, rfl, rfl⟩
  · obtain ⟨d, hd, rfl⟩ := Target.derive_secp256k1_ok hderive
    obtain ⟨i, hfirst, rfl⟩ := scalar?_eq_some_iff.mp hd
    obtain ⟨shown, hmaterial, hpaired⟩ := paired_ofScalar hfirst.pos hfirst.lt
    have hoctets := Bytes.ofNat_toNat
      (scalarCandidate (peerSeed (personaKey seed persona) peer) i)
    rw [length_scalarCandidate] at hoctets
    rw [hoctets] at hmaterial hpaired
    exact ⟨i, shown, hfirst, hmaterial, hpaired⟩
  · obtain ⟨hrsa, -⟩ := Target.derive_rsa_ok hderive
    rw [hrsa] at hkey
    cases hkey

theorem derive_scalar_served : ∃ key i shown,
    Session.Opened [7] { seed := [7] } ∧
    (({ seed := [7] } : Session).derive (.ecdsa "secp256k1") "a" "b").1 = .ok key ∧
    key.keyType = .ec ∧ FirstScalar (peerSeed (personaKey [7] "a") "b") i ∧
    key.material = .ec shown (some
      (HashName.sha256.hmac (peerSeed (personaKey [7] "a") "b") (Bytes.ofNat 4 i))) ∧
    Paired shown
      (HashName.sha256.hmac (peerSeed (personaKey [7] "a") "b") (Bytes.ofNat 4 i)) := by
  obtain ⟨key, hkey⟩ := exists_served
  have hec : key.keyType = .ec := keyType_ecdsa .start hkey
  obtain ⟨i, shown, hfirst, hmaterial, hpaired⟩ := derive_scalar .start hkey hec
  exact ⟨key, i, shown, .start, hkey, hec, hfirst, hmaterial, hpaired⟩

end Pairwise

end JoseTokens
