import JoseTokens.Error
import JoseTokens.Proofs.Text.Base64Url

namespace JoseTokens

namespace Base64Url

theorem sextets_octets (ns : List Nat) (hns : ∀ n ∈ ns, n < 64) (hlength : ns.length % 4 ≠ 1)
    (hspare : spareBits ns.length (ns.getLast?.getD 0) = 0) : sextets (octets ns) = ns := by
  -- Four at a time, as octets are made of them; bits are spare in the last, shorter run only.
  fun_induction octets ns with
  | case1 => rfl
  | case2 p => simp at hlength
  | case3 p q =>
      have hp : p < 64 := hns p (by simp)
      have hq : q < 64 := hns q (by simp)
      have hbits : q % 16 = 0 := by simpa [spareBits] using hspare
      have hfirst : p * 4 + q / 16 < 256 := by omega
      simp only [sextets, UInt8.toNat_ofNat_of_lt' hfirst, List.cons.injEq, and_true]
      omega
  | case4 p q r =>
      have hp : p < 64 := hns p (by simp)
      have hq : q < 64 := hns q (by simp)
      have hr : r < 64 := hns r (by simp)
      have hbits : r % 4 = 0 := by simpa [spareBits] using hspare
      have hfirst : p * 4 + q / 16 < 256 := by omega
      have hsecond : q % 16 * 16 + r / 4 < 256 := by omega
      simp only [sextets, UInt8.toNat_ofNat_of_lt' hfirst, UInt8.toNat_ofNat_of_lt' hsecond,
        List.cons.injEq, and_true]
      omega
  | case5 p q r s rest ih =>
      have hp : p < 64 := hns p (by simp)
      have hq : q < 64 := hns q (by simp)
      have hr : r < 64 := hns r (by simp)
      have hs : s < 64 := hns s (by simp)
      have hrest : sextets (octets rest) = rest := by
        have hmod : (rest.length + 1 + 1 + 1 + 1) % 4 = rest.length % 4 := by omega
        refine ih (fun n hn => hns n (by simp [hn])) ?_ ?_
        · simpa only [List.length_cons, hmod] using hlength
        · cases rest with
          | nil => rfl
          | cons n ns =>
              rw [List.length_cons] at hmod
              simpa [spareBits, hmod] using hspare
      have hfirst : p * 4 + q / 16 < 256 := by omega
      have hsecond : q % 16 * 16 + r / 4 < 256 := by omega
      have hthird : r % 4 * 64 + s < 256 := by omega
      simp only [sextets, UInt8.toNat_ofNat_of_lt' hfirst, UInt8.toNat_ofNat_of_lt' hsecond,
        UInt8.toNat_ofNat_of_lt' hthird, hrest, List.cons.injEq, and_true]
      omega

theorem symbol_value? {b : UInt8} {n : Nat} (h : value? b = some n) :
    n < 64 ∧ (symbol n).toUInt8 = b := by
  have hall : ∀ k < 256, ∀ n ∈ value? (UInt8.ofNat k),
      n < 64 ∧ (symbol n).toUInt8 = UInt8.ofNat k := by
    decide +kernel
  have hb : UInt8.ofNat b.toNat = b := UInt8.ofNat_toNat
  have hfound := hall b.toNat b.toNat_lt
  rw [hb] at hfound
  exact hfound n h

theorem eq_symbols {text : Bytes} (h : Alphabetic text) :
    ∃ ns, (∀ n ∈ ns, n < 64) ∧ text = symbols ns := by
  induction text with
  | nil => exact ⟨[], by simp, rfl⟩
  | cons b rest ih =>
      obtain ⟨n, hn⟩ := Option.isSome_iff_exists.mp (h b List.mem_cons_self)
      obtain ⟨hlt, hsymbol⟩ := symbol_value? hn
      obtain ⟨ns, hns, rfl⟩ := ih fun c hc => h c (List.mem_cons_of_mem _ hc)
      refine ⟨n :: ns, ?_, ?_⟩
      · rw [List.forall_mem_cons]
        exact ⟨hlt, hns⟩
      · simp [symbols, hsymbol]

theorem alphabetic_of_foreignByte? {offset : Nat} {text : Bytes}
    (h : foreignByte? offset text = none) : Alphabetic text := by
  induction text generalizing offset with
  | nil => exact fun _ hb => absurd hb List.not_mem_nil
  | cons b rest ih =>
      rw [foreignByte?] at h
      split at h
      · cases h
      next hb =>
        refine List.forall_mem_cons.mpr ⟨?_, ih h⟩
        simpa [Option.isSome_iff_ne_none] using hb

theorem alphabetic_of_pieceFault? {start position : Nat} {padAt : Option Nat} {text : Bytes}
    (h : pieceFault? start position padAt text = none) : padAt = none ∧ Alphabetic text := by
  -- Once padding has been seen, the end of the piece is a fault as well.
  induction text generalizing position padAt with
  | nil =>
      refine ⟨?_, fun _ hb => absurd hb List.not_mem_nil⟩
      simpa [pieceFault?] using h
  | cons b rest ih =>
      simp only [pieceFault?] at h
      split at h
      · split at h
        · cases h
        · cases (ih h).1
      · cases padAt with
        | some first => cases h
        | none =>
            dsimp only at h
            split at h
            · cases h
            next hb =>
              refine ⟨rfl, List.forall_mem_cons.mpr ⟨?_, (ih h).2⟩⟩
              simpa [Option.isSome_iff_ne_none] using hb

theorem fault?_none {text : Bytes} (h : fault? text = none) :
    Alphabetic text ∧ text.length % 4 ≠ 1 ∧ lastSymbolFault? text = none := by
  rw [fault?] at h
  split at h
  next hlength =>
    cases hlast : text.getLast? with
    | none =>
        rw [List.getLast?_eq_none_iff] at hlast
        subst hlast
        cases hlength
    | some b =>
        rw [hlast] at h
        dsimp only at h
        split at h <;> cases h
  next hlength =>
    simp only [Option.or_eq_none_iff] at h
    obtain ⟨hfront, hlast, hspare⟩ := h
    refine ⟨fun b hb => ?_, hlength, hspare⟩
    rw [← List.take_append_drop ((text.length - 1) / 8 * 8) text, List.mem_append] at hb
    rcases hb with hb | hb
    · exact alphabetic_of_foreignByte? hfront b hb
    · exact (alphabetic_of_pieceFault? hlast).2 b hb

theorem spareBits_of_lastSymbolFault? {ns : List Nat} (hns : ∀ n ∈ ns, n < 64)
    (h : lastSymbolFault? (symbols ns) = none) :
    spareBits ns.length (ns.getLast?.getD 0) = 0 := by
  rw [lastSymbolFault?, symbols, List.getLast?_map] at h
  cases hlast : ns.getLast? with
  | none =>
      rw [List.getLast?_eq_none_iff] at hlast
      subst hlast
      rfl
  | some n =>
      have hn : n < 64 := hns n (List.mem_of_getLast? hlast)
      rw [hlast] at h
      simpa [value?_symbol n hn] using h

theorem encode_of_decode {text : String} {bytes : Bytes} (h : decode text = .ok bytes) :
    encode bytes = text := by
  rw [decode] at h
  split at h
  · cases h
  next hfault =>
    cases h
    obtain ⟨halpha, hlength, hlast⟩ := fault?_none hfault
    obtain ⟨ns, hns, htext⟩ := eq_symbols halpha
    rw [htext] at hlength hlast
    have hregroup : sextets (octets ns) = ns :=
      sextets_octets ns hns (by simpa [symbols] using hlength)
        (spareBits_of_lastSymbolFault? hns hlast)
    apply Bytes.ofText_injective
    rw [ofText_encode, htext, filterMap_symbols ns hns, hregroup]

theorem decode_eq_ok_iff {text : String} {bytes : Bytes} :
    decode text = .ok bytes ↔ text = encode bytes := by
  constructor
  · intro h
    exact (encode_of_decode h).symm
  · rintro rfl
    exact decode_encode bytes

theorem encode_inj {bytes bytes' : Bytes} : encode bytes = encode bytes' ↔ bytes = bytes' := by
  rw [← decode_eq_ok_iff, decode_encode, Except.ok.injEq, eq_comm]

end Base64Url

theorem decodeField_encode (field : String) (bytes : Bytes) :
    decodeField field (Base64Url.encode bytes) = .ok bytes := by
  simp only [decodeField, Base64Url.decode_encode]

theorem encode_of_decodeField {field text : String} {bytes : Bytes}
    (h : decodeField field text = .ok bytes) : Base64Url.encode bytes = text := by
  rw [decodeField] at h
  split at h
  next hdecode =>
    cases h
    exact Base64Url.encode_of_decode hdecode
  · cases h

theorem decodeField_eq_ok_iff {field text : String} {bytes : Bytes} :
    decodeField field text = .ok bytes ↔ text = Base64Url.encode bytes := by
  constructor
  · exact fun h => (encode_of_decodeField h).symm
  · rintro rfl
    exact decodeField_encode field bytes

end JoseTokens
