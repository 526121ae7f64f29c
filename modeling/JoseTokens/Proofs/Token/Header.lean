import JoseTokens.Proofs.Json.Yields
import JoseTokens.Proofs.Text.Canonical
import JoseTokens.Token.Jwe
import JoseTokens.Token.Jws

namespace JoseTokens

namespace Json

theorem portableMembers_iff (ms : List (String × Json)) :
    PortableMembers ms ↔ ∀ m ∈ ms, Portable m.2 := by
  induction ms with
  | nil => simp [PortableMembers]
  | cons m ms ih => rw [PortableMembers, ih, List.forall_mem_cons]

theorem memberDepth_le_iff (ms : List (String × Json)) (d : Nat) :
    memberDepth ms ≤ d ↔ ∀ m ∈ ms, depth m.2 ≤ d := by
  induction ms with
  | nil => simp [memberDepth]
  | cons m ms ih => rw [memberDepth, Nat.max_le, ih, List.forall_mem_cons]

theorem itemDepth_le_iff (items : List Json) (d : Nat) :
    itemDepth items ≤ d ↔ ∀ v ∈ items, depth v ≤ d := by
  induction items with
  | nil => simp [itemDepth]
  | cons item items ih => rw [itemDepth, Nat.max_le, ih, List.forall_mem_cons]

theorem depth_object_le_iff (ms : List (String × Json)) (d : Nat) :
    depth (.object ms) ≤ d + 1 ↔ ∀ m ∈ ms, depth m.2 ≤ d := by
  rw [depth, Nat.add_le_add_iff_right, memberDepth_le_iff]

theorem depth_array_le_iff (items : List Json) (d : Nat) :
    depth (.array items) ≤ d + 1 ↔ ∀ v ∈ items, depth v ≤ d := by
  rw [depth, Nat.add_le_add_iff_right, itemDepth_le_iff]

end Json

namespace Header

def Each (P : Json → Prop) (h : Header) : Prop :=
  h.names.Nodup ∧ ∀ m ∈ h.members, P m.2

def Portable (levels : Nat) (h : Header) : Prop :=
  Json.Portable h.toJson ∧ Json.depth h.toJson ≤ levels

def Distinct (h : Header) : Prop :=
  Json.Distinct h.toJson

def WholeNumbers (h : Header) : Prop :=
  Json.WholeNumbers h.toJson

instance : DecidablePred Distinct :=
  fun h => inferInstanceAs (Decidable (Json.Distinct h.toJson))

instance : DecidablePred WholeNumbers :=
  fun h => inferInstanceAs (Decidable (Json.WholeNumbers h.toJson))

theorem portable_succ_iff (d : Nat) (h : Header) :
    h.Portable (d + 1) ↔ h.Each fun v => Json.Portable v ∧ Json.depth v ≤ d := by
  simp only [Portable, Each, toJson, Json.Portable, Json.depth, Json.portableMembers_iff,
    Nat.add_le_add_iff_right, Json.memberDepth_le_iff, names]
  constructor
  · intro ⟨⟨hnames, hvalues⟩, hdepth⟩
    exact ⟨hnames, fun m hm => ⟨hvalues m hm, hdepth m hm⟩⟩
  · intro ⟨hnames, hmembers⟩
    exact ⟨⟨hnames, fun m hm => (hmembers m hm).1⟩, fun m hm => (hmembers m hm).2⟩

theorem distinct_iff (h : Header) : h.Distinct ↔ h.Each Json.Distinct :=
  Json.distinct_object_iff

theorem distinct_empty : Distinct {} :=
  Json.distinct_object_nil

theorem portable_iff (levels : Nat) (h : Header) :
    h.Portable levels ↔ h.Distinct ∧ h.WholeNumbers ∧ Json.depth h.toJson ≤ levels := by
  rw [Portable, Json.portable_iff, and_assoc]
  rfl

theorem levels_pos {levels : Nat} {h : Header} (hportable : h.Portable levels) : 0 < levels :=
  Nat.lt_of_lt_of_le (Nat.zero_lt_succ _) hportable.2

theorem each_empty (P : Json → Prop) : Each P {} :=
  ⟨List.nodup_nil, fun _ hm => absurd hm List.not_mem_nil⟩

theorem portable_empty (d : Nat) : Portable (d + 1) {} :=
  (portable_succ_iff d {}).mpr (each_empty _)

theorem eq_empty {h : Header} (hempty : h.isEmpty = true) : h = {} := by
  obtain ⟨members⟩ := h
  obtain rfl : members = [] := List.isEmpty_iff.mp hempty
  rfl

theorem find?_insert_self (h : Header) (name : String) (v : Json) :
    (h.insert name v).find? name = some v :=
  Json.find?_put_self name v h.members

theorem find?_insert_other (h : Header) {name other : String} (hne : name ≠ other) (v : Json) :
    (h.insert name v).find? other = h.find? other :=
  Json.find?_put_other hne v h.members

theorem find?_insertText?_other (h : Header) {name other : String} (hne : name ≠ other)
    (text : Option String) : (h.insertText? name text).find? other = h.find? other := by
  cases text with
  | none => rfl
  | some text => exact find?_insert_other h hne (.string text)

section

variable {P : Json → Prop} {h : Header}

theorem Each.insert (heach : h.Each P) (name : String) {v : Json} (hv : P v) :
    (h.insert name v).Each P := by
  refine ⟨Json.nodup_put name v heach.1, fun m hm => ?_⟩
  rcases Json.mem_put hm with heq | hm
  · rw [heq]
    exact hv
  · exact heach.2 m hm

variable (htext : ∀ s, P (.string s))

include htext

theorem Each.insertText (heach : h.Each P) (name text : String) :
    (h.insertText name text).Each P :=
  heach.insert name (htext text)

theorem Each.insertText? (heach : h.Each P) (name : String) (text : Option String) :
    (h.insertText? name text).Each P := by
  cases text with
  | none => exact heach
  | some text => exact heach.insertText htext name text

end

theorem portable_insert {d : Nat} {h : Header} (hportable : h.Portable (d + 1)) (name : String)
    {v : Json} (hv : Json.Portable v ∧ Json.depth v ≤ d) : (h.insert name v).Portable (d + 1) := by
  rw [portable_succ_iff] at hportable ⊢
  exact hportable.insert name hv

theorem portable_insertText {d : Nat} {h : Header} (hportable : h.Portable (d + 1))
    (name text : String) : (h.insertText name text).Portable (d + 1) :=
  portable_insert hportable name ⟨trivial, Nat.zero_le d⟩

theorem portable_insertText? {d : Nat} {h : Header} (hportable : h.Portable (d + 1))
    (name : String) (text : Option String) : (h.insertText? name text).Portable (d + 1) := by
  cases text with
  | none => exact hportable
  | some text => exact portable_insertText hportable name text

theorem extend_induction {P : Header → Prop} {h other : Header} (hstart : P h)
    (hstep : ∀ h name v, (name, v) ∈ other.members → P h → h.contains name = false →
      P (h.insert name v)) : P (h.extend other) := by
  refine List.foldlRecOn other.members _ hstart ?_
  intro h hstart m hm
  by_cases hcontains : h.contains m.1 = true
  · simpa only [if_pos hcontains] using hstart
  · simpa only [if_neg hcontains] using hstep h m.1 m.2 hm hstart (by simpa using hcontains)

theorem find?_extend {h : Header} {name : String} {v : Json} (other : Header)
    (hfound : h.find? name = some v) : (h.extend other).find? name = some v := by
  refine extend_induction (P := fun h => h.find? name = some v) hfound ?_
  intro h key x _ hfound hnew
  have hne : key ≠ name := by
    rintro rfl
    simp [contains, hfound] at hnew
  rw [find?_insert_other h hne]
  exact hfound

theorem Each.extend {P : Json → Prop} {h other : Header} (heach : h.Each P)
    (hother : other.Each P) : (h.extend other).Each P := by
  refine extend_induction (P := Each P) heach ?_
  intro h name v hm heach _
  exact heach.insert name (hother.2 _ hm)

theorem reads_header {levels : Nat} {h : Header} (hportable : h.Portable levels) :
    Json.Reads (read levels) h.toJson.bytes h :=
  Json.reads_map Header.mk (Json.reads_map_object h.members hportable.1 levels hportable.2)

theorem yields_read (d : Nat) : Json.Yields (read d) Distinct :=
  Json.yields_map (Json.yields_object d) fun _ h => h

theorem ofJson_compact {h : Header} (hportable : h.Portable Json.maxDepth) :
    ofJson (Bytes.ofText h.toJson.compact) = .ok h := by
  rw [Json.ofText_compact]
  exact Json.document_of_reads (reads_header hportable)

theorem toJson_compact_ne_nil (h : Header) : Bytes.ofText h.toJson.compact ≠ [] := by
  rw [Json.ofText_compact, toJson, Json.bytes_object]
  exact List.cons_ne_nil _ _

end Header

namespace Protected

theorem ofHeader_encoded_isEmpty (h : Header) :
    (ofHeader h).encoded.isEmpty = h.isEmpty := by
  cases hempty : h.isEmpty with
  | true => simp [ofHeader, hempty]
  | false =>
      simp only [ofHeader, hempty, Bool.false_eq_true, if_false, Base64Url.encode_isEmpty]
      simpa using h.toJson_compact_ne_nil

theorem decode_ofHeader {h : Header} (hportable : h.Portable Json.maxDepth) :
    decode (ofHeader h).encoded = .ok (ofHeader h) := by
  rw [decode, ofHeader_encoded_isEmpty]
  cases hempty : h.isEmpty with
  | true =>
      obtain rfl := Header.eq_empty hempty
      rfl
  | false =>
      simp only [ofHeader, hempty, Bool.false_eq_true, if_false, decodeField_encode]
      simp only [bind, Except.bind, Header.ofJson_compact hportable]
      rfl

end Protected

theorem Jws.alg?_signerHeader (alg : String) (kid : Option String) (extra : Header) :
    (Jws.signerHeader alg kid extra).alg? = some alg := by
  have hfound : ((Header.insertText {} "alg" alg).insertText? "kid" kid).find? "alg" =
      some (.string alg) := by
    rw [Header.find?_insertText?_other _ (by decide)]
    exact Header.find?_insert_self _ _ _
  rw [Jws.signerHeader, Header.alg?, Header.text?, Header.find?_extend extra hfound]
  rfl

theorem Jws.each_signerHeader {P : Json → Prop} (htext : ∀ s, P (.string s)) {extra : Header}
    (hextra : extra.Each P) (alg : String) (kid : Option String) :
    (Jws.signerHeader alg kid extra).Each P :=
  (((Header.each_empty P).insertText htext "alg" alg).insertText? htext "kid" kid).extend hextra

theorem Jws.portable_signerHeader {levels : Nat} {extra : Header}
    (hextra : extra.Portable levels) (alg : String) (kid : Option String) :
    (Jws.signerHeader alg kid extra).Portable levels := by
  obtain ⟨d, rfl⟩ := Nat.exists_eq_add_of_lt (Header.levels_pos hextra)
  rw [Header.portable_succ_iff] at hextra ⊢
  exact Jws.each_signerHeader (fun _ => ⟨trivial, Nat.zero_le _⟩) hextra alg kid

theorem Jwe.alg?_senderHeader (alg enc : String) (kid : Option String) (extra : Header) :
    (Jwe.senderHeader alg enc kid extra).alg? = some alg := by
  have hfound : (((Header.insertText {} "alg" alg).insertText "enc" enc).insertText? "kid"
      kid).find? "alg" = some (.string alg) := by
    rw [Header.find?_insertText?_other _ (by decide), Header.insertText,
      Header.find?_insert_other _ (by decide)]
    exact Header.find?_insert_self _ _ _
  rw [Jwe.senderHeader, Header.alg?, Header.text?, Header.find?_extend extra hfound]
  rfl

theorem Jwe.enc?_senderHeader (alg enc : String) (kid : Option String) (extra : Header) :
    (Jwe.senderHeader alg enc kid extra).enc? = some enc := by
  have hfound : (((Header.insertText {} "alg" alg).insertText "enc" enc).insertText? "kid"
      kid).find? "enc" = some (.string enc) := by
    rw [Header.find?_insertText?_other _ (by decide)]
    exact Header.find?_insert_self _ _ _
  rw [Jwe.senderHeader, Header.enc?, Header.text?, Header.find?_extend extra hfound]
  rfl

theorem Jwe.each_senderHeader {P : Json → Prop} (htext : ∀ s, P (.string s)) {extra : Header}
    (hextra : extra.Each P) (alg enc : String) (kid : Option String) :
    (Jwe.senderHeader alg enc kid extra).Each P :=
  ((((Header.each_empty P).insertText htext "alg" alg).insertText htext "enc" enc).insertText?
    htext "kid" kid).extend hextra

theorem Jwe.portable_senderHeader {levels : Nat} {extra : Header}
    (hextra : extra.Portable levels) (alg enc : String) (kid : Option String) :
    (Jwe.senderHeader alg enc kid extra).Portable levels := by
  obtain ⟨d, rfl⟩ := Nat.exists_eq_add_of_lt (Header.levels_pos hextra)
  rw [Header.portable_succ_iff] at hextra ⊢
  exact Jwe.each_senderHeader (fun _ => ⟨trivial, Nat.zero_le _⟩) hextra alg enc kid

end JoseTokens
