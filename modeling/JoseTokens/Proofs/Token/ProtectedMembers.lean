import JoseTokens.Key.Form
import JoseTokens.Proofs.Token.JwsRoundTrip
import JoseTokens.Proofs.Token.Recipients
import JoseTokens.Proofs.Token.Signers

namespace JoseTokens

namespace Header

theorem contains_iff (h : Header) (name : String) : h.contains name = true ↔ name ∈ h.names :=
  Json.isSome_find?_iff name h.members

theorem members_insert {h : Header} {name : String} (hnew : name ∉ h.names) (v : Json) :
    (h.insert name v).members = h.members ++ [(name, v)] :=
  Json.put_new name v h.members hnew

def behind (extra : Header) (own : List (String × Json)) : List (String × Json) :=
  own ++ extra.members.filter fun m => m.1 ∉ own.map (·.1)

theorem members_extend (h : Header) {extra : Header} (hextra : extra.names.Nodup) :
    (h.extend extra).members = extra.behind h.members := by
  obtain ⟨members⟩ := extra
  induction members generalizing h with
  | nil => simp [extend, behind]
  | cons m members ih =>
      obtain ⟨hfirst, hextra⟩ := List.nodup_cons.mp hextra
      have hstep : h.extend ⟨m :: members⟩ =
          (if h.contains m.1 then h else h.insert m.1 m.2).extend ⟨members⟩ := rfl
      rw [hstep]
      by_cases hname : m.1 ∈ h.members.map (·.1)
      · rw [if_pos ((contains_iff h m.1).mpr hname), ih h hextra, behind, behind,
          List.filter_cons_of_neg (by simpa only [decide_eq_true_iff, not_not] using hname)]
      · -- The names that follow are other ones than the one that is appended.
        have hothers : members.filter (fun other => other.1 ∉ (h.members ++ [m]).map (·.1)) =
            members.filter fun other => other.1 ∉ h.members.map (·.1) := by
          refine List.filter_congr fun other hother => ?_
          have hne : other.1 ≠ m.1 := by
            intro heq
            exact hfirst (List.mem_map.mpr ⟨other, hother, heq⟩)
          simp [hne]
        rw [if_neg ((contains_iff h m.1).not.mpr hname), ih _ hextra, behind, behind,
          members_insert hname, hothers,
          List.filter_cons_of_pos (by simpa only [decide_eq_true_iff] using hname),
          List.append_assoc]
        rfl

end Header

structure Protected.Holds (p : Protected) (members : List (String × Json)) : Prop where
  lists : p.header.members = members
  writes : p.encoded = Base64Url.encode (Bytes.ofText (Json.object members).compact)

theorem Protected.holds_ofHeader {h : Header} {members : List (String × Json)}
    (hmembers : h.members = members) (hsome : members ≠ []) : (ofHeader h).Holds members := by
  have hempty : h.isEmpty = false := by
    rw [Header.isEmpty, hmembers, List.isEmpty_eq_false_iff]
    exact hsome
  refine ⟨hmembers, ?_⟩
  rw [ofHeader, hempty, Header.toJson, hmembers]
  rfl

namespace Jws

def signerMembers (alg : String) (kid : Option String) : List (String × Json) :=
  ("alg", .string alg) :: Jwk.label "kid" kid

theorem holds_signerHeader (alg : String) (kid : Option String) {extra : Header}
    (hextra : extra.names.Nodup) :
    (Protected.ofHeader (signerHeader alg kid extra)).Holds
      (extra.behind (signerMembers alg kid)) := by
  have hown : ((Header.insertText {} "alg" alg).insertText? "kid" kid).members =
      signerMembers alg kid := by
    cases kid <;> rfl
  refine Protected.holds_ofHeader ?_ (List.cons_ne_nil _ _)
  rw [signerHeader, Header.members_extend _ hextra, hown]

end Jws

namespace Jwe

def senderMembers (alg enc : String) (kid : Option String) : List (String × Json) :=
  ("alg", .string alg) :: ("enc", .string enc) :: Jwk.label "kid" kid

theorem holds_senderHeader (alg enc : String) (kid : Option String) {extra : Header}
    (hextra : extra.names.Nodup) :
    (Protected.ofHeader (senderHeader alg enc kid extra)).Holds
      (extra.behind (senderMembers alg enc kid)) := by
  have hown : (((Header.insertText {} "alg" alg).insertText "enc" enc).insertText? "kid"
      kid).members = senderMembers alg enc kid := by
    cases kid <;> rfl
  refine Protected.holds_ofHeader ?_ (List.cons_ne_nil _ _)
  rw [senderHeader, Header.members_extend _ hextra, hown]

theorem encrypt_ok {e : Engine (Except Error)} {recipients : List Jwk} {payload : Bytes}
    {format : Format} {options : EncryptOptions} {entropy : Entropy} {t : Jwe}
    (h : encrypt e recipients payload format options entropy = .ok t) :
    ∃ first others, recipients = first :: others ∧
      t.protectedHeader = .ofHeader (senderHeader (first.alg?.getD e.config.keyEncryption)
        (options.enc.getD e.config.contentEncryption) (if others = [] then first.kid? else none)
        options.protectedHeader) := by
  rw [encrypt] at h
  cases hfault : encryptFault? recipients payload format options with
  | some fault =>
      rw [hfault] at h
      cases h
  | none =>
      rw [hfault] at h
      obtain ⟨hsome, -⟩ := encryptFault?_none hfault
      obtain ⟨enc, henc, h⟩ := bind_eq_ok h
      obtain ⟨algs, halgs, h⟩ := bind_eq_ok h
      obtain ⟨content, -, h⟩ := bind_eq_ok h
      obtain ⟨wrapped, -, h⟩ := bind_eq_ok h
      obtain ⟨a, -, h⟩ := bind_eq_ok h
      obtain ⟨whole, -, h⟩ := bind_eq_ok h
      obtain ⟨parts, -, h⟩ := bind_eq_ok h
      rw [liftResult_except] at henc halgs
      obtain rfl := requireCapability_ok henc
      obtain rfl := mapM_requireCapability halgs
      cases recipients with
      | nil => exact absurd rfl hsome
      | cons first others =>
          cases h
          refine ⟨first, others, rfl, ?_⟩
          cases others <;> rfl

end Jwe

theorem protected_members (e : Engine (Except Error)) :
    (∀ (t u : Jws) (reference : Reference) (format : Format) (options : SignOptions),
      options.protectedHeader.names.Nodup →
      Jws.sign e t reference format options = .ok u →
      ∃ key alg entry, e.store.latest reference = .ok key ∧ key.alg? = some alg ∧
        u = { t with signatures := t.signatures ++ [entry] } ∧
        entry.protectedHeader.Holds
          (options.protectedHeader.behind (Jws.signerMembers alg key.kid?))) ∧
    ∀ (recipients : List Jwk) (payload : Bytes) (format : Format) (options : EncryptOptions)
      (entropy : Entropy) (t : Jwe),
      options.protectedHeader.names.Nodup →
      Jwe.encrypt e recipients payload format options entropy = .ok t →
      ∃ first others, recipients = first :: others ∧
        t.protectedHeader.Holds (options.protectedHeader.behind
          (Jwe.senderMembers (first.alg?.getD e.config.keyEncryption)
            (options.enc.getD e.config.contentEncryption)
            (if others = [] then first.kid? else none))) := by
  constructor
  · intro t u reference format options hoptions hsign
    obtain ⟨key, alg, signature, hkey, halg, rfl⟩ := Jws.sign_ok hsign
    exact ⟨key, alg, _, hkey, halg, rfl, Jws.holds_signerHeader alg key.kid? hoptions⟩
  · intro recipients payload format options entropy t hoptions hencrypt
    obtain ⟨first, others, hrecipients, hheader⟩ := Jwe.encrypt_ok hencrypt
    refine ⟨first, others, hrecipients, ?_⟩
    rw [hheader]
    exact Jwe.holds_senderHeader _ _ _ hoptions

def intrusive : Header where
  members := [("kid", .int 7), ("typ", .string "JWT"), ("enc", .null), ("alg", .string "none"),
    ("b64", .bool false)]

def hashingEngine : Engine (Except Error) :=
  .software { keyEncryption := "RSA-OAEP" }
    (.memory ⟨[((.secret, "s"), ⟨Jws.hashedKey "HS256", []⟩)]⟩)

theorem protected_members_intrusive : intrusive.names.Nodup ∧
    (∃ u entry, Jws.sign hashingEngine {} { name := "s", storage := .secret } .compact
        { protectedHeader := intrusive } = .ok u ∧ u.signatures = [entry] ∧
      entry.protectedHeader.Holds [("alg", .string "HS256"), ("kid", .int 7),
        ("typ", .string "JWT"), ("enc", .null), ("b64", .bool false)]) ∧
    ∃ t, Jwe.encrypt hashingEngine [Jwe.narrowKey none] [4, 5, 6] .compact
        { enc := some "A128GCM", protectedHeader := intrusive } ⟨UInt8.ofNat⟩ = .ok t ∧
      t.protectedHeader.Holds [("alg", .string "RSA-OAEP"), ("enc", .string "A128GCM"),
        ("kid", .string "party"), ("typ", .string "JWT"), ("b64", .bool false)] := by
  have hnames : intrusive.names.Nodup := by decide
  refine ⟨hnames, ?_, ?_⟩
  · obtain ⟨u, hu⟩ := exists_of_isOk (x := Jws.sign hashingEngine {}
      { name := "s", storage := .secret } .compact { protectedHeader := intrusive })
      (by decide +kernel)
    obtain ⟨key, alg, entry, hkey, halg, hentries, hholds⟩ :=
      (protected_members hashingEngine).1 _ _ _ _ _ hnames hu
    cases hkey
    cases halg
    exact ⟨u, entry, hu, hentries ▸ rfl, hholds⟩
  · obtain ⟨t, ht⟩ := exists_of_isOk (x := Jwe.encrypt hashingEngine [Jwe.narrowKey none] [4, 5, 6]
      .compact { enc := some "A128GCM", protectedHeader := intrusive } ⟨UInt8.ofNat⟩)
      (by decide +kernel)
    obtain ⟨first, others, hrecipients, hholds⟩ :=
      (protected_members hashingEngine).2 _ _ _ _ _ _ hnames ht
    cases hrecipients
    exact ⟨t, ht, hholds⟩

end JoseTokens
