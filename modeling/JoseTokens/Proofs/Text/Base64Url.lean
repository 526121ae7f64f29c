import JoseTokens.Proofs.Text.Octets
import JoseTokens.Text.Base64Url

namespace JoseTokens.Base64Url

def Alphabetic (text : Bytes) : Prop :=
  ∀ b ∈ text, (value? b).isSome

theorem symbol_ascii : ∀ n < 64, (symbol n).toNat < 128 := by decide

theorem value?_symbol : ∀ n < 64, value? (symbol n).toUInt8 = some n := by decide

theorem value?_pad : value? pad = none := rfl

theorem sextets_lt (bytes : Bytes) : ∀ n ∈ sextets bytes, n < 64 := by
  fun_induction sextets bytes with
  | case1 => simp
  | case2 a =>
      intro n hn
      have ha := a.toNat_lt
      simp only [List.mem_cons, List.not_mem_nil, or_false] at hn
      omega
  | case3 a b =>
      intro n hn
      have ha := a.toNat_lt
      have hb := b.toNat_lt
      simp only [List.mem_cons, List.not_mem_nil, or_false] at hn
      omega
  | case4 a b c rest ih =>
      intro n hn
      have ha := a.toNat_lt
      have hb := b.toNat_lt
      have hc := c.toNat_lt
      simp only [List.mem_cons] at hn
      rcases hn with hn | hn | hn | hn | hn
      · omega
      · omega
      · omega
      · omega
      · exact ih n hn

theorem octets_sextets (bytes : Bytes) : octets (sextets bytes) = bytes := by
  fun_induction sextets bytes with
  | case1 => rfl
  | case2 a =>
      have ha := a.toNat_lt
      simp only [octets, List.cons.injEq, and_true, ← UInt8.toNat_inj, UInt8.toNat_ofNat']
      omega
  | case3 a b =>
      have ha := a.toNat_lt
      have hb := b.toNat_lt
      simp only [octets, List.cons.injEq, and_true, ← UInt8.toNat_inj, UInt8.toNat_ofNat']
      omega
  | case4 a b c rest ih =>
      have ha := a.toNat_lt
      have hb := b.toNat_lt
      have hc := c.toNat_lt
      simp only [octets, ih, List.cons.injEq, and_true, ← UInt8.toNat_inj, UInt8.toNat_ofNat']
      omega

theorem sextets_length (bytes : Bytes) : (sextets bytes).length % 4 ≠ 1 := by
  fun_induction sextets bytes with
  | case1 => decide
  | case2 a => simp
  | case3 a b => simp
  | case4 a b c rest ih =>
      simp only [List.length_cons]
      omega

theorem spareBits_sextets (bytes : Bytes) :
    spareBits (sextets bytes).length ((sextets bytes).getLast?.getD 0) = 0 := by
  fun_induction sextets bytes with
  | case1 => rfl
  | case2 a => simp [spareBits]
  | case3 a b => simp [spareBits]
  | case4 a b c rest ih =>
      cases h : sextets rest with
      | nil => simp [spareBits]
      | cons n ns =>
          have hmod : (ns.length + 1 + 1 + 1 + 1 + 1) % 4 = (ns.length + 1) % 4 := by omega
          rw [h] at ih
          simpa [spareBits, hmod] using ih

def symbols (ns : List Nat) : Bytes :=
  ns.map fun n => (symbol n).toUInt8

theorem ofChars_symbols (ns : List Nat) (h : ∀ n ∈ ns, n < 64) :
    Bytes.ofChars (ns.map symbol) = symbols ns := by
  induction ns with
  | nil => rfl
  | cons n ns ih =>
      have hn : n < 64 := h n List.mem_cons_self
      have hns : ∀ m ∈ ns, m < 64 := fun m hm => h m (List.mem_cons_of_mem _ hm)
      rw [List.map_cons, Bytes.ofChars_cons, Bytes.encode_ascii (symbol_ascii n hn), ih hns]
      rfl

theorem ofText_encode (bytes : Bytes) :
    Bytes.ofText (encode bytes) = symbols (sextets bytes) := by
  rw [encode, Bytes.ofText_ofList, ofChars_symbols _ (sextets_lt bytes)]

theorem alphabetic_symbols (ns : List Nat) (h : ∀ n ∈ ns, n < 64) : Alphabetic (symbols ns) := by
  intro b hb
  simp only [symbols, List.mem_map] at hb
  obtain ⟨n, hn, rfl⟩ := hb
  simp [value?_symbol n (h n hn)]

theorem filterMap_symbols (ns : List Nat) (h : ∀ n ∈ ns, n < 64) :
    (symbols ns).filterMap value? = ns := by
  induction ns with
  | nil => rfl
  | cons n ns ih =>
      have hn : n < 64 := h n List.mem_cons_self
      have hns : ∀ m ∈ ns, m < 64 := fun m hm => h m (List.mem_cons_of_mem _ hm)
      simp only [symbols, List.map_cons, List.filterMap_cons, value?_symbol n hn]
      exact congrArg (List.cons n) (ih hns)

theorem foreignByte?_eq_none (offset : Nat) {text : Bytes} (h : Alphabetic text) :
    foreignByte? offset text = none := by
  induction text generalizing offset with
  | nil => rfl
  | cons b rest ih =>
      have hb : (value? b).isSome := h b List.mem_cons_self
      have hrest : Alphabetic rest := fun c hc => h c (List.mem_cons_of_mem _ hc)
      simp [foreignByte?, Option.isNone_iff_eq_none, Option.isSome_iff_ne_none.mp hb, ih _ hrest]

theorem pieceFault?_eq_none (start position : Nat) {text : Bytes} (h : Alphabetic text) :
    pieceFault? start position none text = none := by
  induction text generalizing position with
  | nil => rfl
  | cons b rest ih =>
      have hb : (value? b).isSome := h b List.mem_cons_self
      have hrest : Alphabetic rest := fun c hc => h c (List.mem_cons_of_mem _ hc)
      have hpad : b ≠ pad := by
        rintro rfl
        simp [value?_pad] at hb
      simp [pieceFault?, hpad, Option.isNone_iff_eq_none, Option.isSome_iff_ne_none.mp hb,
        ih _ hrest]

theorem lastSymbolFault?_symbols (bytes : Bytes) :
    lastSymbolFault? (symbols (sextets bytes)) = none := by
  have hspare := spareBits_sextets bytes
  have hlt := sextets_lt bytes
  rw [lastSymbolFault?, symbols, List.getLast?_map]
  cases hlast : (sextets bytes).getLast? with
  | none => rfl
  | some n =>
      have hn : n < 64 := hlt n (List.mem_of_getLast? hlast)
      rw [hlast] at hspare
      simpa [value?_symbol n hn] using hspare

theorem fault?_symbols (bytes : Bytes) : fault? (symbols (sextets bytes)) = none := by
  have halpha := alphabetic_symbols _ (sextets_lt bytes)
  have hlength : (symbols (sextets bytes)).length % 4 ≠ 1 := by
    simpa [symbols] using sextets_length bytes
  have htake : Alphabetic ((symbols (sextets bytes)).take
      (((symbols (sextets bytes)).length - 1) / 8 * 8)) :=
    fun b hb => halpha b (List.mem_of_mem_take hb)
  have hdrop : Alphabetic ((symbols (sextets bytes)).drop
      (((symbols (sextets bytes)).length - 1) / 8 * 8)) :=
    fun b hb => halpha b (List.mem_of_mem_drop hb)
  rw [fault?, if_neg hlength]
  simp only [foreignByte?_eq_none 0 htake, pieceFault?_eq_none _ 0 hdrop,
    lastSymbolFault?_symbols, Option.or_none]

theorem decode_encode (bytes : Bytes) : decode (encode bytes) = .ok bytes := by
  simp only [decode, ofText_encode, fault?_symbols, filterMap_symbols _ (sextets_lt bytes),
    octets_sextets]

theorem encode_isEmpty (bytes : Bytes) : (encode bytes).isEmpty = bytes.isEmpty := by
  cases bytes with
  | nil => rfl
  | cons a rest =>
      cases rest with
      | nil => simp [encode, sextets]
      | cons b rest =>
          cases rest with
          | nil => simp [encode, sextets]
          | cons c rest => simp [encode, sextets]

def symbolChars : List Char :=
  (List.range 64).map symbol

theorem mem_symbolChars_of_mem_encode {bytes : Bytes} {c : Char} (h : c ∈ (encode bytes).toList) :
    c ∈ symbolChars := by
  simp only [encode, String.toList_ofList, List.mem_map] at h
  obtain ⟨n, hn, rfl⟩ := h
  exact List.mem_map.mpr ⟨n, List.mem_range.mpr (sextets_lt bytes n hn), rfl⟩

end JoseTokens.Base64Url
