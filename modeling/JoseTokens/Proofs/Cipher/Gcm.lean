import JoseTokens.Cipher.Gcm
import JoseTokens.Proofs.Number.Octets
import Mathlib.Data.List.GetD

namespace JoseTokens

namespace Bytes

theorem chunksWithin_exact {size count fuel : Nat} (hsize : 0 < size) {bytes : Bytes}
    (hlength : bytes.length = size * count) (hfuel : count ≤ fuel) :
    (chunksWithin size fuel bytes).length = count ∧
      ∀ piece ∈ chunksWithin size fuel bytes, piece.length = size := by
  induction count generalizing bytes fuel with
  | zero =>
      obtain rfl : bytes = [] := List.length_eq_zero_iff.mp hlength
      cases fuel <;> simp [chunksWithin]
  | succ count ih =>
      rw [Nat.mul_succ] at hlength
      cases fuel with
      | zero => omega
      | succ fuel =>
          cases bytes with
          | nil =>
              rw [List.length_nil] at hlength
              omega
          | cons b bytes =>
              have hrest : ((b :: bytes).drop size).length = size * count := by
                rw [List.length_drop]
                omega
              obtain ⟨hcount, hpieces⟩ := ih hrest (Nat.le_of_succ_le_succ hfuel)
              rw [chunksWithin]
              · refine ⟨by rw [List.length_cons, hcount], ?_⟩
                intro piece hpiece
                rcases List.mem_cons.mp hpiece with rfl | hpiece
                · rw [List.length_take]
                  omega
                · exact hpieces piece hpiece
              · simp

theorem chunks_exact {size count : Nat} (hsize : 0 < size) {bytes : Bytes}
    (hlength : bytes.length = size * count) :
    (chunks size bytes).length = count ∧ ∀ piece ∈ chunks size bytes, piece.length = size :=
  chunksWithin_exact hsize hlength (by rw [hlength]; exact Nat.le_mul_of_pos_left count hsize)

end Bytes

namespace Aes

theorem length_expand {keyWords : Nat} (hwords : 0 < keyWords) (fuel : Nat) (constant : UInt8)
    {done : List Bytes} (hdone : ∀ word ∈ done, word.length = 4) (hcount : keyWords ≤ done.length) :
    (expand keyWords fuel constant done).length = done.length + fuel ∧
      ∀ word ∈ expand keyWords fuel constant done, word.length = 4 := by
  induction fuel generalizing constant done with
  | zero => exact ⟨rfl, hdone⟩
  | succ fuel ih =>
      have hlast : (done.headD []).length = 4 := by
        cases done with
        | nil =>
            rw [List.length_nil] at hcount
            omega
        | cons word done => exact hdone word List.mem_cons_self
      have hback : (done.getD (keyWords - 1) []).length = 4 := by
        have hbound : keyWords - 1 < done.length := by omega
        rw [List.getD_eq_getElem _ _ hbound]
        exact hdone _ (List.getElem_mem hbound)
      have hnext (constant : UInt8) {word : Bytes} (hword : word.length = 4) :
          (expand keyWords fuel constant (word :: done)).length = done.length + (fuel + 1) ∧
            ∀ word' ∈ expand keyWords fuel constant (word :: done), word'.length = 4 := by
        have hall : ∀ word' ∈ word :: done, word'.length = 4 :=
          List.forall_mem_cons.mpr ⟨hword, hdone⟩
        have hprolonged := ih constant hall (by rw [List.length_cons]; omega)
        rw [List.length_cons] at hprolonged
        exact ⟨by rw [hprolonged.1]; omega, hprolonged.2⟩
      rw [expand]
      split
      · apply hnext
        simp only [Bytes.length_xor, hback, List.length_map, List.length_append, List.length_drop,
          List.length_take, hlast, List.length_cons, List.length_nil]
        rfl
      · split
        · apply hnext
          simp only [Bytes.length_xor, hback, List.length_map, hlast]
          rfl
        · apply hnext
          simp only [Bytes.length_xor, hback, hlast]
          rfl

theorem length_flatten_words {words : List Bytes} (h : ∀ word ∈ words, word.length = 4) :
    words.flatten.length = 4 * words.length := by
  induction words with
  | nil => rfl
  | cons word words ih =>
      obtain ⟨hword, hwords⟩ := List.forall_mem_cons.mp h
      rw [List.flatten_cons, List.length_append, hword, ih hwords, List.length_cons]
      omega

theorem length_roundKeys {key : Bytes} {count : Nat} (hkey : key.length = 4 * count)
    (hcount : 0 < count) :
    roundKeys key ≠ [] ∧ ∀ block ∈ roundKeys key, block.length = 16 := by
  obtain ⟨hwords, hpieces⟩ := Bytes.chunks_exact (by decide : 0 < 4) hkey
  have hstart : (Bytes.chunks 4 key).reverse.length = count := by
    rw [List.length_reverse, hwords]
  have hall : ∀ word ∈ (Bytes.chunks 4 key).reverse, word.length = 4 := fun word hword =>
    hpieces word (List.mem_reverse.mp hword)
  obtain ⟨htotal, hschedule⟩ := length_expand hcount (4 * (count + 7) - count) 1 hall
    (Nat.le_of_eq hstart.symm)
  have hlength : (expand count (4 * (count + 7) - count) 1
      (Bytes.chunks 4 key).reverse).reverse.flatten.length = 16 * (count + 7) := by
    rw [length_flatten_words fun word hword => hschedule word (List.mem_reverse.mp hword),
      List.length_reverse, htotal, hstart]
    omega
  obtain ⟨hkeys, hblocks⟩ := Bytes.chunks_exact (by decide : 0 < 16) hlength
  have hround : roundKeys key = Bytes.chunks 16 (expand count (4 * (count + 7) - count) 1
      (Bytes.chunks 4 key).reverse).reverse.flatten := by
    simp only [roundKeys, hstart]
  rw [hround]
  refine ⟨?_, hblocks⟩
  intro hnil
  rw [hnil, List.length_nil] at hkeys
  omega

theorem length_mixColumns (count : Nat) {block : Bytes} (h : block.length = 4 * count) :
    (mixColumns block).length = 4 * count := by
  induction count generalizing block with
  | zero =>
      obtain rfl : block = [] := List.length_eq_zero_iff.mp h
      rfl
  | succ count ih =>
      match block, h with
      | a :: b :: c :: d :: rest, h =>
          simp only [mixColumns, List.length_cons] at h ⊢
          rw [ih (by omega)]
          omega

theorem length_shiftRows (block : Bytes) : (shiftRows block).length = 16 := by
  rw [shiftRows, List.length_map]
  rfl

theorem length_rounds {keys : List Bytes} (h : ∀ key ∈ keys, key.length = 16) {block : Bytes}
    (hblock : block.length = 16) : (rounds keys block).length = 16 := by
  induction keys generalizing block with
  | nil => exact hblock
  | cons key keys ih =>
      obtain ⟨hkey, hkeys⟩ := List.forall_mem_cons.mp h
      cases keys with
      | nil =>
          rw [rounds, Bytes.length_xor, length_shiftRows, hkey]
          rfl
      | cons next keys =>
          have hmixed := length_mixColumns 4 (length_shiftRows (block.map substitute))
          rw [rounds]
          · exact ih hkeys (by rw [Bytes.length_xor, hmixed, hkey]; rfl)
          · simp

theorem length_encryptBlock {keys : List Bytes} (hsome : keys ≠ [])
    (h : ∀ key ∈ keys, key.length = 16) {block : Bytes} (hblock : block.length = 16) :
    (encryptBlock keys block).length = 16 := by
  cases keys with
  | nil => exact absurd rfl hsome
  | cons first keys =>
      obtain ⟨hfirst, hkeys⟩ := List.forall_mem_cons.mp h
      exact length_rounds hkeys (by rw [Bytes.length_xor, hblock, hfirst]; rfl)

end Aes

namespace Gcm

theorem length_keystream {keys : List Bytes} (hsome : keys ≠ [])
    (h : ∀ key ∈ keys, key.length = 16) {nonce : Bytes} (hnonce : nonce.length = nonceSize)
    (start blocks : Nat) : (keystream keys nonce start blocks).length = 16 * blocks := by
  have hblock (i : Nat) :
      (Aes.encryptBlock keys (nonce ++ Bytes.ofNat 4 (start + i))).length = 16 := by
    apply Aes.length_encryptBlock hsome h
    rw [List.length_append, hnonce, Bytes.length_ofNat]
    rfl
  rw [keystream, List.length_flatMap, List.map_congr_left fun i _ => hblock i, List.map_const',
    List.sum_replicate_nat, List.length_range, Nat.mul_comm]

section

variable {key nonce : Bytes} {count : Nat} (hkey : key.length = 4 * count) (hcount : 0 < count)
  (hnonce : nonce.length = nonceSize)

include hkey hcount hnonce

theorem length_mask (text : Bytes) :
    (mask (Aes.roundKeys key) nonce text).length = text.length := by
  obtain ⟨hsome, hkeys⟩ := Aes.length_roundKeys hkey hcount
  rw [mask, Bytes.length_xor, length_keystream hsome hkeys hnonce]
  omega

theorem mask_mask (text : Bytes) :
    mask (Aes.roundKeys key) nonce (mask (Aes.roundKeys key) nonce text) = text := by
  obtain ⟨hsome, hkeys⟩ := Aes.length_roundKeys hkey hcount
  have hlength := length_mask hkey hcount hnonce text
  rw [mask, hlength, mask]
  apply Bytes.xor_xor_cancel
  rw [length_keystream hsome hkeys hnonce]
  omega

theorem length_encrypt (aad plaintext : Bytes) :
    (encrypt key nonce aad plaintext).length = plaintext.length + tagSize := by
  rw [encrypt, List.length_append, length_mask hkey hcount hnonce, tag, Bytes.length_ofNat]

theorem decrypt?_encrypt (aad plaintext : Bytes) :
    decrypt? key nonce aad (encrypt key nonce aad plaintext) = some plaintext := by
  have hmask := length_mask hkey hcount hnonce plaintext
  have hsize : (encrypt key nonce aad plaintext).length - tagSize =
      (mask (Aes.roundKeys key) nonce plaintext).length := by
    rw [length_encrypt hkey hcount hnonce, hmask, Nat.add_sub_cancel]
  have hlong : tagSize ≤ (encrypt key nonce aad plaintext).length := by
    rw [length_encrypt hkey hcount hnonce]
    exact Nat.le_add_left _ _
  rw [decrypt?, hsize]
  simp only [hlong, true_and]
  simp only [encrypt, List.take_left, List.drop_left, if_true, mask_mask hkey hcount hnonce]

theorem eq_encrypt_of_decrypt? {aad sealed plaintext : Bytes}
    (h : decrypt? key nonce aad sealed = some plaintext) :
    sealed = encrypt key nonce aad plaintext := by
  rw [decrypt?] at h
  split at h
  next hopened =>
    obtain ⟨_, htag⟩ := hopened
    obtain rfl := Option.some.inj h
    simp only [encrypt, mask_mask hkey hcount hnonce, htag, List.take_append_drop]
  next => cases h

end

end Gcm

end JoseTokens
