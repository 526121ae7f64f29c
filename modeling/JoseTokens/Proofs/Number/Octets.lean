import JoseTokens.Bytes
import Mathlib.Algebra.Group.Nat.Defs
import Mathlib.Data.List.Induction

namespace JoseTokens.Bytes

theorem length_xor (a b : Bytes) : (xor a b).length = min a.length b.length := by
  rw [xor, List.length_zipWith]

theorem xor_xor_cancel (a k : Bytes) (h : a.length ≤ k.length) : xor (xor a k) k = a := by
  induction a generalizing k with
  | nil => rfl
  | cons b a ih =>
      cases k with
      | nil => simp at h
      | cons c k =>
          have htail : xor (xor a k) k = a := ih k (by simpa using h)
          have hhead : b ^^^ c ^^^ c = b := by
            rw [UInt8.xor_assoc, UInt8.xor_self, UInt8.xor_zero]
          simp only [xor, List.zipWith_cons_cons, hhead] at htail ⊢
          rw [htail]

theorem length_ofNatOnto (width n : Nat) (tail : Bytes) :
    (ofNatOnto width n tail).length = width + tail.length := by
  induction width generalizing n tail with
  | zero => simp [ofNatOnto]
  | succ width ih =>
      rw [ofNatOnto, ih, List.length_cons]
      omega

theorem length_ofNat (width n : Nat) : (ofNat width n).length = width := by
  rw [ofNat, length_ofNatOnto, List.length_nil, Nat.add_zero]

theorem ofNatOnto_eq (width n : Nat) (tail : Bytes) :
    ofNatOnto width n tail = ofNat width n ++ tail := by
  induction width generalizing n tail with
  | zero => rfl
  | succ width ih =>
      rw [ofNat, ofNatOnto, ofNatOnto, ih, ih _ [_]]
      simp

theorem ofNat_succ (width n : Nat) :
    ofNat (width + 1) n = ofNat width (n / 256) ++ [UInt8.ofNat n] :=
  ofNatOnto_eq width (n / 256) [UInt8.ofNat n]

theorem toNat_concat (bytes : Bytes) (b : UInt8) :
    toNat (bytes ++ [b]) = toNat bytes * 256 + b.toNat := by
  simp [toNat]

theorem toNat_lt (bytes : Bytes) : toNat bytes < 256 ^ bytes.length := by
  induction bytes using List.reverseRecOn with
  | nil => decide
  | append_singleton bytes b ih =>
      have hb : b.toNat < 256 := b.toNat_lt
      rw [toNat_concat, List.length_append, List.length_singleton, Nat.pow_succ]
      omega

theorem toNat_ofNat {width n : Nat} (h : n < 256 ^ width) : toNat (ofNat width n) = n := by
  induction width generalizing n with
  | zero =>
      obtain rfl : n = 0 := Nat.lt_one_iff.mp h
      rfl
  | succ width ih =>
      have hquotient : n / 256 < 256 ^ width := by
        rw [Nat.pow_succ] at h
        omega
      rw [ofNat_succ, toNat_concat, ih hquotient, UInt8.toNat_ofNat']
      omega

theorem ofNat_toNat (bytes : Bytes) : ofNat bytes.length (toNat bytes) = bytes := by
  induction bytes using List.reverseRecOn with
  | nil => rfl
  | append_singleton bytes b ih =>
      have hb : b.toNat < 256 := b.toNat_lt
      have hquotient : (toNat bytes * 256 + b.toNat) / 256 = toNat bytes := by omega
      have hlast : UInt8.ofNat (toNat bytes * 256 + b.toNat) = b := by
        apply UInt8.toNat_inj.mp
        rw [UInt8.toNat_ofNat']
        omega
      rw [toNat_concat, List.length_append, List.length_singleton, ofNat_succ, hquotient, ih, hlast]

theorem length_ofNatLittle (width n : Nat) : (ofNatLittle width n).length = width := by
  induction width generalizing n with
  | zero => rfl
  | succ width ih => rw [ofNatLittle, List.length_cons, ih]

theorem toNatLittle_ofNatLittle {width n : Nat} (h : n < 256 ^ width) :
    toNatLittle (ofNatLittle width n) = n := by
  induction width generalizing n with
  | zero =>
      obtain rfl : n = 0 := Nat.lt_one_iff.mp h
      rfl
  | succ width ih =>
      have hquotient : n / 256 < 256 ^ width := by
        rw [Nat.pow_succ] at h
        omega
      have hrest := ih hquotient
      rw [toNatLittle] at hrest
      rw [toNatLittle, ofNatLittle, List.foldr_cons, hrest, UInt8.toNat_ofNat']
      omega

theorem toNat_zero_cons (bytes : Bytes) : toNat (0 :: bytes) = toNat bytes := by
  simp [toNat]

theorem pow_width_le {n : Nat} (h : n ≠ 0) : 256 ^ (width n - 1) ≤ n := by
  have hpow : 2 ^ n.log2 ≤ n := Nat.log2_self_le h
  have hexponent : 8 * (n.log2 / 8) ≤ n.log2 := Nat.mul_div_le _ _
  rw [width, Nat.add_sub_cancel]
  calc 256 ^ (n.log2 / 8) = 2 ^ (8 * (n.log2 / 8)) := by rw [Nat.pow_mul]
    _ ≤ 2 ^ n.log2 := Nat.pow_le_pow_right (by decide) hexponent
    _ ≤ n := hpow

theorem lt_pow_width (n : Nat) : n < 256 ^ width n := by
  have hpow : n < 2 ^ (n.log2 + 1) := Nat.lt_log2_self
  have hexponent : n.log2 + 1 ≤ 8 * (n.log2 / 8 + 1) := by omega
  rw [width]
  calc n < 2 ^ (n.log2 + 1) := hpow
    _ ≤ 2 ^ (8 * (n.log2 / 8 + 1)) := Nat.pow_le_pow_right (by decide) hexponent
    _ = 256 ^ (n.log2 / 8 + 1) := by rw [Nat.pow_mul]

theorem toNat_minimal (n : Nat) : toNat (minimal n) = n :=
  toNat_ofNat (lt_pow_width n)

end JoseTokens.Bytes
