import JoseTokens.Hash.Name
import JoseTokens.Proofs.Number.Octets

namespace JoseTokens.HashName

theorem length_digest (hash : HashName) (message : Bytes) :
    (hash.digest message).length = hash.size := by
  cases hash with
  | sha1 => simp [digest, Sha1.digest, Sha1.output, Bytes.length_ofNat, size]
  | sha256 => simp [digest, Sha256.digest, Sha256.output, Bytes.length_ofNat, size]
  | sha384 =>
      simp [digest, Sha512.digest384, Sha512.digestFrom, Sha512.output, Bytes.length_ofNat, size]
  | sha512 =>
      simp [digest, Sha512.digest, Sha512.digestFrom, Sha512.output, Bytes.length_ofNat, size]

theorem size_pos (hash : HashName) : 0 < hash.size := by
  cases hash <;> decide

theorem size_le_blockSize (hash : HashName) : hash.size ≤ hash.blockSize := by
  cases hash <;> decide

theorem length_hmac (hash : HashName) (key data : Bytes) :
    (hash.hmac key data).length = hash.size :=
  hash.length_digest _

def Collision (hash : HashName) (messages : List Bytes) : Prop :=
  ∃ a ∈ messages, ∃ b ∈ messages, a ≠ b ∧ hash.digest a = hash.digest b

instance (hash : HashName) (messages : List Bytes) : Decidable (hash.Collision messages) := by
  unfold Collision
  infer_instance

section

variable {hash : HashName} {messages others : List Bytes}

theorem Collision.mono (h : hash.Collision messages) (hsub : messages ⊆ others) :
    hash.Collision others := by
  obtain ⟨a, ha, b, hb, hne, heq⟩ := h
  exact ⟨a, hsub ha, b, hsub hb, hne, heq⟩

theorem Collision.append {left right : List Bytes} (h : hash.Collision (left ++ right))
    (hleft : left ⊆ messages) (hright : right ⊆ others) : hash.Collision (messages ++ others) :=
  h.mono (List.append_subset.mpr
    ⟨List.subset_append_of_subset_left _ hleft, List.subset_append_of_subset_right _ hright⟩)

theorem eq_or_collision {a b : Bytes} (ha : a ∈ messages) (hb : b ∈ messages)
    (h : hash.digest a = hash.digest b) : a = b ∨ hash.Collision messages := by
  by_cases heq : a = b
  · exact .inl heq
  · exact .inr ⟨a, ha, b, hb, heq, h⟩

end

variable {hash : HashName} {key key' data data' : Bytes}

theorem length_keyBlock (hash : HashName) (key : Bytes) :
    (hash.keyBlock key).length = hash.blockSize := by
  have hdigest := hash.length_digest key
  have hsize := hash.size_le_blockSize
  simp only [keyBlock, List.length_append, List.length_replicate]
  split <;> omega

theorem keyBlock_short (h : key.length ≤ hash.blockSize) :
    hash.keyBlock key = key ++ List.replicate (hash.blockSize - key.length) 0 := by
  simp only [keyBlock, if_neg (Nat.not_lt.mpr h)]

theorem keyBlock_inj (hshort : key.length ≤ hash.blockSize) (hlength : key.length = key'.length)
    (h : hash.keyBlock key = hash.keyBlock key') : key = key' := by
  rw [keyBlock_short hshort, keyBlock_short (hlength ▸ hshort)] at h
  exact List.append_inj_left h hlength

theorem digest_eq_of_keyBlock (hlong : hash.blockSize < key.length)
    (hlong' : hash.blockSize < key'.length) (h : hash.keyBlock key = hash.keyBlock key') :
    hash.digest key = hash.digest key' := by
  simp only [keyBlock, if_pos hlong, if_pos hlong'] at h
  exact List.append_inj_left h (by rw [length_digest, length_digest])

theorem masked_inj {mask : UInt8} {a b : Bytes} (h : a.map (· ^^^ mask) = b.map (· ^^^ mask)) :
    a = b :=
  (List.map_inj_right fun _ _ => (UInt8.xor_left_inj mask).mp).mp h

def rounds (hash : HashName) (key data : Bytes) : List Bytes :=
  [hash.innerInput key data, hash.outerInput key data]

def messages (hash : HashName) (key data : Bytes) : List Bytes :=
  (if hash.blockSize < key.length then [key] else []) ++ hash.rounds key data

theorem rounds_subset_messages (hash : HashName) (key data : Bytes) :
    hash.rounds key data ⊆ hash.messages key data :=
  List.subset_append_right _ _

theorem hmac_congr (h : hash.keyBlock key = hash.keyBlock key') (data : Bytes) :
    hash.hmac key data = hash.hmac key' data := by
  simp only [hmac, outerInput, innerInput, h]

theorem eq_or_collision_of_hmac (h : hash.hmac key data = hash.hmac key' data') :
    (hash.keyBlock key = hash.keyBlock key' ∧ data = data') ∨
      hash.Collision (hash.rounds key data ++ hash.rounds key' data') := by
  have hblocks (mask : UInt8) : ((hash.keyBlock key).map (· ^^^ mask)).length =
      ((hash.keyBlock key').map (· ^^^ mask)).length := by
    simp only [List.length_map, length_keyBlock]
  have houter : hash.outerInput key data = hash.outerInput key' data' ∨
      hash.Collision (hash.rounds key data ++ hash.rounds key' data') :=
    eq_or_collision (by simp [rounds]) (by simp [rounds]) h
  rcases houter with houter | hcollision
  · obtain ⟨hkey, hinner⟩ := List.append_inj houter (hblocks 0x5c)
    have hinner : hash.innerInput key data = hash.innerInput key' data' ∨
        hash.Collision (hash.rounds key data ++ hash.rounds key' data') :=
      eq_or_collision (by simp [rounds]) (by simp [rounds]) hinner
    rcases hinner with hinner | hcollision
    · exact .inl ⟨masked_inj hkey, List.append_inj_right hinner (hblocks 0x36)⟩
    · exact .inr hcollision
  · exact .inr hcollision

end JoseTokens.HashName
