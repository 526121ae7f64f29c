import JoseTokens.Proofs.Hash.Keyed
import JoseTokens.Proofs.Rsa.Power
import JoseTokens.Rsa.Oaep

namespace JoseTokens

namespace Rsa

theorem le_mul_ceil (length : Nat) {size : Nat} (h : 0 < size) :
    length ≤ (length + (size - 1)) / size * size := by
  have hdiv := Nat.div_add_mod (length + (size - 1)) size
  have hmod := Nat.mod_lt (length + (size - 1)) h
  rw [Nat.mul_comm] at hdiv
  omega

theorem length_mask (hash : HashName) (seed : Bytes) (length : Nat) :
    (mask hash seed length).length = length := by
  have hpiece (i : Nat) : (hash.digest (seed ++ Bytes.ofNat 4 i)).length = hash.size :=
    hash.length_digest _
  have henough := le_mul_ceil length hash.size_pos
  rw [mask, List.length_take, List.length_flatMap, List.map_congr_left fun i _ => hpiece i,
    List.map_const', List.sum_replicate_nat, List.length_range]
  exact Nat.min_eq_left henough

theorem xor_mask_mask (hash : HashName) (seed text : Bytes) :
    Bytes.xor (Bytes.xor text (mask hash seed text.length)) (mask hash seed text.length) = text :=
  Bytes.xor_xor_cancel _ _ (Nat.le_of_eq (length_mask hash seed _).symm)

theorem length_xor_mask (hash : HashName) (seed text : Bytes) :
    (Bytes.xor text (mask hash seed text.length)).length = text.length := by
  rw [Bytes.length_xor, length_mask, Nat.min_self]

theorem afterZeros?_one (count : Nat) (message : Bytes) :
    afterZeros? (List.replicate count 0 ++ 1 :: message) = some message := by
  induction count with
  | zero => simp [afterZeros?]
  | succ count ih => simpa [List.replicate_succ, afterZeros?] using ih

section

variable {hash : HashName} {size : Nat} {seed message : Bytes}

theorem length_oaepBlock (hseed : seed.length = hash.size)
    (hsize : message.length + 2 * hash.size + 2 ≤ size) :
    (oaepBlock hash size seed message).length = size := by
  simp only [oaepBlock, List.length_append, List.length_cons, Bytes.length_xor, length_mask,
    hash.length_digest, List.length_replicate, hseed]
  omega

theorem oaepMessage?_oaepBlock (hseed : seed.length = hash.size) :
    oaepMessage? hash (oaepBlock hash size seed message) = some message := by
  have hunpadded (data maskedData : Bytes)
      (hdata : data = hash.digest [] ++
        (List.replicate (size - message.length - 2 * hash.size - 2) 0 ++ 1 :: message))
      (hmasked : maskedData = Bytes.xor data (mask hash seed data.length)) :
      oaepMessage? hash (0 :: (Bytes.xor seed (mask hash maskedData hash.size) ++ maskedData)) =
        some message := by
    have hlength : maskedData.length = data.length := by
      rw [hmasked, length_xor_mask]
    have hfront : (Bytes.xor seed (mask hash maskedData hash.size)).length = hash.size := by
      rw [← hseed, length_xor_mask]
    have hseedBack : Bytes.xor (Bytes.xor seed (mask hash maskedData hash.size))
        (mask hash maskedData hash.size) = seed := by
      rw [← hseed]
      exact xor_mask_mask hash maskedData seed
    have hdataBack : Bytes.xor maskedData (mask hash seed maskedData.length) = data := by
      rw [hlength, hmasked]
      exact xor_mask_mask hash seed data
    have hdigest : (hash.digest []).length = hash.size := hash.length_digest []
    simp only [oaepMessage?, List.drop_left' hfront, List.take_left' hfront, hseedBack, hdataBack]
    rw [hdata, List.take_left' hdigest, List.drop_left' hdigest]
    simpa using afterZeros?_one _ message
  simpa only [oaepBlock, List.append_assoc, List.cons_append] using hunpadded _ _ rfl rfl

theorem toNat_oaepBlock_lt {n : Nat} (hn : n ≠ 0) (hseed : seed.length = hash.size)
    (hsize : message.length + 2 * hash.size + 2 ≤ Bytes.width n) :
    Bytes.toNat (oaepBlock hash (Bytes.width n) seed message) < n := by
  have hlength := length_oaepBlock hseed hsize
  rw [oaepBlock, List.cons_append, List.length_cons] at hlength
  rw [oaepBlock, List.cons_append, Bytes.toNat_zero_cons]
  refine Nat.lt_of_lt_of_le (Bytes.toNat_lt _) ?_
  rw [Nat.eq_sub_of_add_eq hlength]
  exact Bytes.pow_width_le hn

end

variable {key : PrivateKey} {p q : Nat} {hash : HashName} {seed message ciphertext : Bytes}

theorem PublicKey.encrypt_ok {key : PublicKey}
    (h : key.encrypt hash seed message = .ok ciphertext) :
    message.length + 2 * hash.size + 2 ≤ key.size ∧
      ciphertext = Bytes.ofNat key.size
        (key.power (Bytes.toNat (oaepBlock hash key.size seed message))) := by
  rw [encrypt] at h
  split at h
  · cases h
  next hsize =>
    cases h
    exact ⟨Nat.le_of_not_lt hsize, rfl⟩

theorem PrivateKey.decrypt_ok (h : key.decrypt hash ciphertext = .ok message) :
    ciphertext.length = key.size := by
  rw [decrypt] at h
  split at h
  · cases h
  next hfits => exact Decidable.not_not.mp fun hlength => hfits (.inl hlength)

theorem Sound.ne_zero (h : Sound key p q) : key.n ≠ 0 := by
  rw [h.modulus]
  exact Nat.mul_ne_zero h.left.ne_zero h.right.ne_zero

theorem Sound.decrypt_encrypt (h : Sound key p q) (hseed : seed.length = hash.size)
    (hencrypt : key.toPublic.encrypt hash seed message = .ok ciphertext) :
    key.decrypt hash ciphertext = .ok message := by
  obtain ⟨hsize, rfl⟩ := PublicKey.encrypt_ok hencrypt
  have hpublic : key.toPublic.size = key.size := rfl
  rw [hpublic] at hsize ⊢
  have hsmall : Bytes.toNat (oaepBlock hash key.size seed message) < key.n :=
    toNat_oaepBlock_lt h.ne_zero hseed hsize
  have hpower :
      key.toPublic.power (Bytes.toNat (oaepBlock hash key.size seed message)) < key.n := by
    rw [PublicKey.power, Number.powMod_eq]
    exact Nat.mod_lt _ (Nat.pos_of_ne_zero h.ne_zero)
  have hread := Bytes.toNat_ofNat (hpower.trans (Bytes.lt_pow_width key.n))
  have hblock := Bytes.ofNat_toNat (oaepBlock hash key.size seed message)
  rw [length_oaepBlock hseed hsize] at hblock
  have hroot := h.root_power hsmall
  have hroom : ¬ key.size < 2 * hash.size + 2 := by omega
  have hrange : ¬ ((Bytes.ofNat key.size
      (key.toPublic.power (Bytes.toNat (oaepBlock hash key.size seed message)))).length ≠ key.size ∨
        key.n ≤ key.toPublic.power (Bytes.toNat (oaepBlock hash key.size seed message))) := by
    rw [Bytes.length_ofNat]
    omega
  change Bytes.toNat (Bytes.ofNat key.size _) = _ at hread
  rw [PrivateKey.decrypt]
  simp only [hread]
  rw [if_neg hrange, hroot]
  simp only [bind, Except.bind]
  rw [if_neg hroom, hblock, oaepMessage?_oaepBlock hseed]
  rfl

end Rsa

end JoseTokens
