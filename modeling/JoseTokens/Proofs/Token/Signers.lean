import JoseTokens.Proofs.Curve.Ecdsa
import JoseTokens.Proofs.Key.Halves
import JoseTokens.Proofs.Token.JwsText
import JoseTokens.Proofs.Token.Verification

namespace JoseTokens.Jws

def signerEntry (store : KeyStore) (payload : Bytes) (reference : Reference)
    (options : SignOptions) : Except Error Signature := do
  let key ← store.latest reference
  let some alg := key.alg? | .error (.missingAlgorithm s!"key {reference.text}")
  let a ← Algorithm.ofId alg
  let protectedHeader := Protected.ofHeader (signerHeader alg key.kid? options.protectedHeader)
  a.checkKey key
  let signature ← a.sign key (signingInput protectedHeader payload)
  return { protectedHeader, header := options.header, signature }

theorem sign_software (config : Config) (store : KeyStore) (t : Jws) (reference : Reference)
    (options : SignOptions) :
    sign (Engine.software config store) t reference .general options =
      (signerEntry store t.payload reference options).map fun s =>
        { t with signatures := t.signatures ++ [s] } := by
  have hfault : t.signFault? .general options = none := rfl
  have hlatest : (Engine.software config store).store.latest reference =
      store.latest reference := rfl
  rw [sign, signerEntry, hfault, liftResult_except, hlatest]
  cases store.latest reference with
  | error error => rfl
  | ok key =>
      cases halg : key.alg? with
      | none => simp [bind, Except.bind, halg, Except.map, throw, throwThe,
          MonadExceptOf.throw]
      | some alg =>
          simp only [bind, Except.bind, pure, Except.pure, halg, liftResult_except]
          cases hid : Algorithm.ofId alg with
          | error error => rfl
          | ok a =>
              simp only [Engine.signKept_software (Algorithm.id?_ofId hid)]
              cases a.checkKey key with
              | error error => rfl
              | ok _ =>
                  simp only [Except.bind]
                  cases a.sign key _ <;> rfl

theorem signerEntry_ok {store : KeyStore} {payload : Bytes} {reference : Reference}
    {options : SignOptions} {s : Signature}
    (h : signerEntry store payload reference options = .ok s) :
    ∃ key alg a, store.latest reference = .ok key ∧ key.alg? = some alg ∧
      Algorithm.ofId alg = .ok a ∧ a.checkKey key = .ok () ∧
      s.protectedHeader = Protected.ofHeader (signerHeader alg key.kid? options.protectedHeader) ∧
      s.header = options.header ∧
      a.sign key (signingInput s.protectedHeader payload) = .ok s.signature := by
  obtain ⟨key, hkey, h⟩ := bind_eq_ok h
  cases halg : key.alg? with
  | none =>
      rw [halg] at h
      cases h
  | some alg =>
      rw [halg] at h
      obtain ⟨a, ha, h⟩ := bind_eq_ok h
      obtain ⟨_, hchecked, h⟩ := bind_eq_ok h
      obtain ⟨signature, hsignature, h⟩ := bind_eq_ok h
      cases h
      exact ⟨key, alg, a, hkey, halg, ha, hchecked, rfl, rfl, hsignature⟩

theorem bind_shown {a : Algorithm} {key v : Jwk} (h : Engine.shown key = .ok v) :
    a.bind v = a.bind key := by
  rw [Engine.shown] at h
  split at h
  · cases h
    rfl
  · obtain ⟨labels, material⟩ := key
    rw [Jwk.toPublic] at h
    split at h
    · cases h
    · cases h
      cases material <;> cases a <;> rfl

/-- What is assumed of a key to verify with: it is imported, and it accepts what is signed with the
key that it belongs to. -/
structure Counterpart (a : Algorithm) (key v : Jwk) : Prop where
  shown : Engine.shown key = .ok v
  imports : ∀ binding, a.bind v = .ok binding →
    ∃ imported, Software.importKey binding v true = .ok imported
  accepts : ∀ data signature, a.sign key data = .ok signature →
    a.verify v signature data = .ok true

theorem Counterpart.checkKey {a : Algorithm} {key v : Jwk} (h : Counterpart a key v)
    (hkey : a.checkKey key = .ok ()) : a.checkKey v = .ok () := by
  obtain ⟨binding, hbinding, _⟩ := bind_eq_ok hkey
  rw [← bind_shown h.shown] at hbinding
  obtain ⟨imported, himported⟩ := h.imports binding hbinding
  rw [Algorithm.checkKey, hbinding]
  simp only [Except.bind, himported, Except.map]

theorem counterpart_hmac (hash : HashName) (labels : Labels) {k : Bytes} (hk : k ≠ []) :
    Counterpart (.hmac hash) ⟨labels, .oct k⟩ ⟨labels, .oct k⟩ where
  shown := rfl
  imports := by
    intro binding hbinding
    cases hbinding
    cases k with
    | nil => exact absurd rfl hk
    | cons b k => exact ⟨_, rfl⟩
  accepts := by
    intro data signature h
    have htag : keyedHash hash k data = .ok signature := h
    simp only [Algorithm.verify, htag, bind, Except.bind, beq_self_eq_true]
    rfl

theorem counterpart_ecdsa {labels : Labels} {shown : EcPublic} {d : Bytes} (h : Paired shown d) :
    Counterpart (.ecdsa .secp256k1 .sha256) ⟨labels, .ec shown (some d)⟩
      ⟨labels, .ec shown none⟩ where
  shown := rfl
  imports := by
    intro binding hbinding
    obtain ⟨hcurve, -⟩ := EcPublic.point_eq_ok_iff.mp h.point
    have hname : Curve.ofName? shown.curve = some .secp256k1 := by
      rw [requireCurve] at hcurve
      split at hcurve
      next hname => exact hname
      · cases hcurve
    rw [Algorithm.bind_ecdsa rfl rfl hname] at hbinding
    cases hbinding
    have hcheck : Software.checkMaterial (.ec shown none) = .ok () :=
      map_unit_eq_ok_iff.mpr ⟨_, h.point⟩
    exact ⟨_, Software.importKey_eq_ok_iff.mpr ⟨rfl, hcheck, hcurve, rfl⟩⟩
  accepts := by
    intro data signature hsign
    have hmade := Algorithm.sign_ecdsa rfl h.scalar hsign
    rw [Algorithm.verify_ecdsa rfl, h.point, Except.map, Secp256k1.verify_of_sign? hmade h.isAt]

structure SignCall where
  config : Config
  store : KeyStore
  reference : Reference
  options : SignOptions

def SignCall.run (c : SignCall) (t : Jws) : Except Error Jws :=
  sign (Engine.software c.config c.store) t c.reference .general c.options

def signAll (t : Jws) (calls : List SignCall) : Except Error Jws :=
  calls.foldlM (fun t c => c.run t) t

def SignCall.Makes (payload : Bytes) (c : SignCall) (s : Signature) : Prop :=
  signerEntry c.store payload c.reference c.options = .ok s

theorem run_ok {c : SignCall} {t u : Jws} (h : c.run t = .ok u) :
    ∃ s, c.Makes t.payload s ∧ u = { t with signatures := t.signatures ++ [s] } := by
  rw [SignCall.run, sign_software] at h
  obtain ⟨s, hs, rfl⟩ := map_eq_ok h
  exact ⟨s, hs, rfl⟩

theorem run_makes {c : SignCall} {t : Jws} {s : Signature} (h : c.Makes t.payload s) :
    c.run t = .ok { t with signatures := t.signatures ++ [s] } := by
  have hentry : signerEntry c.store t.payload c.reference c.options = .ok s := h
  rw [SignCall.run, sign_software, hentry]
  rfl

theorem signAll_iff (t u : Jws) (calls : List SignCall) :
    signAll t calls = .ok u ↔ ∃ entries, List.Forall₂ (SignCall.Makes t.payload) calls entries ∧
      u = { t with signatures := t.signatures ++ entries } := by
  induction calls generalizing t with
  | nil =>
      constructor
      · intro h
        cases h
        exact ⟨[], .nil, by simp⟩
      · rintro ⟨entries, hentries, rfl⟩
        cases hentries
        simp [signAll, pure, Except.pure]
  | cons c calls ih =>
      constructor
      · intro h
        obtain ⟨next, hnext, hrest⟩ := bind_eq_ok h
        obtain ⟨s, hs, rfl⟩ := run_ok hnext
        obtain ⟨entries, hentries, rfl⟩ := (ih _).mp hrest
        exact ⟨s :: entries, .cons hs hentries, by simp⟩
      · rintro ⟨entries, hentries, rfl⟩
        cases hentries with
        | cons hs hentries =>
            rw [signAll, List.foldlM_cons, run_makes hs]
            exact (ih _).mpr ⟨_, hentries, by simp⟩

def SignCall.VerifiesWith (c : SignCall) (v : Jwk) : Prop :=
  ∃ key alg a, c.store.latest c.reference = .ok key ∧ key.alg? = some alg ∧
    Algorithm.ofId alg = .ok a ∧ Counterpart a key v

theorem entryVerified_makes {c : SignCall} {payload : Bytes} {s : Signature} {v : Jwk}
    (hmakes : c.Makes payload s) (hv : c.VerifiesWith v)
    (hheader : c.options.header.contains "alg" = false) (config : Config) (store : KeyStore)
    {candidates : List Jwk} (hcandidate : v ∈ candidates) :
    EntryVerified (Engine.software config store) candidates payload s := by
  obtain ⟨key, alg, a, hkey, halg, ha, hchecked, hprotected, hunprotected, hsign⟩ :=
    signerEntry_ok hmakes
  obtain ⟨key', alg', a', hkey', halg', ha', hcounterpart⟩ := hv
  cases hkey.symm.trans hkey'
  cases halg.symm.trans halg'
  cases ha.symm.trans ha'
  have hnone : s.header.alg? = none := by
    rw [hunprotected, Header.alg?, Header.text?]
    rw [Header.contains, Option.isSome_eq_false_iff, Option.isNone_iff_eq_none] at hheader
    rw [hheader]
    rfl
  have hentry : s.alg? = some alg := by
    rw [Signature.alg?, hnone, hprotected]
    exact alg?_signerHeader alg key.kid? c.options.protectedHeader
  refine ⟨alg, hentry, v, hcandidate, ?_⟩
  rw [Engine.verify_software, ha]
  simp only [Except.bind, hcounterpart.checkKey hchecked, hcounterpart.accepts _ _ hsign]

def PortableOptions (options : SignOptions) : Prop :=
  options.protectedHeader.Portable Json.maxDepth ∧ options.header.Portable entryLevels

theorem portable_makes {c : SignCall} {payload : Bytes} {s : Signature}
    (hmakes : c.Makes payload s) (h : PortableOptions c.options) :
    s.protectedHeader.Kept ∧ s.header.Portable entryLevels := by
  obtain ⟨key, alg, a, hkey, halg, ha, hchecked, hprotected, hunprotected, hsign⟩ :=
    signerEntry_ok hmakes
  rw [hprotected, hunprotected]
  exact ⟨Protected.decode_ofHeader (portable_signerHeader h.1 alg key.kid?), h.2⟩

theorem signAll_take {payload : Bytes} {calls : List SignCall} {entries : List Signature}
    (h : List.Forall₂ (SignCall.Makes payload) calls entries) (n : Nat) :
    signAll { payload } (calls.take n) = .ok { payload, signatures := entries.take n } :=
  (signAll_iff _ _ _).mpr ⟨entries.take n, List.forall₂_take n h, rfl⟩

theorem signAll_verifies {payload : Bytes} {calls : List SignCall} {t : Jws} (hcalls : calls ≠ [])
    (hsigned : signAll { payload } calls = .ok t)
    (hportable : ∀ c ∈ calls, PortableOptions c.options)
    (hheader : ∀ c ∈ calls, c.options.header.contains "alg" = false) (verifier : SignCall → Jwk)
    (hverifier : ∀ c ∈ calls, c.VerifiesWith (verifier c)) :
    (t.payload = payload ∧ t.signatures.length = calls.length ∧
      ∀ n, signAll { payload } (calls.take n) =
        .ok { payload, signatures := t.signatures.take n }) ∧
    ∃ text, t.serialize .general = .ok text ∧ deserialize text = .ok t ∧
      ∀ config store candidates supplied, (∀ c ∈ calls, verifier c ∈ candidates) →
        (supplied = none ∨ supplied = some payload) →
        verify (Engine.software config store) t candidates supplied = .ok true := by
  obtain ⟨entries, hentries, ht⟩ := (signAll_iff _ _ _).mp hsigned
  obtain rfl : t = { payload, signatures := entries } := ht
  have hlength : entries.length = calls.length := hentries.length_eq.symm
  have hsome : entries ≠ [] := by
    rintro rfl
    exact hcalls (List.length_eq_zero_iff.mp hlength.symm)
  have hwritten (s : Signature) (hs : s ∈ entries) :
      s.protectedHeader.Kept ∧ s.header.Portable entryLevels := by
    obtain ⟨c, hc, hmakes⟩ := forall₂_mem_right hentries hs
    exact portable_makes hmakes (hportable c hc)
  refine ⟨⟨rfl, hlength, signAll_take hentries⟩, _, serialize_general hsome,
    deserialize_general hsome (fun s hs => (hwritten s hs).1) fun s hs => (hwritten s hs).2, ?_⟩
  intro config store candidates supplied hcandidates hsupplied
  refine verify_verified hsome hsupplied fun s hs => ?_
  obtain ⟨c, hc, hmakes⟩ := forall₂_mem_right hentries hs
  exact entryVerified_makes hmakes (hverifier c hc) (hheader c hc) config store (hcandidates c hc)

def hashedKey (alg : String) : Jwk where
  labels := { alg := some alg }
  material := .oct [7, 7, 7, 7]

def hashedCall (alg : String) : SignCall where
  config := {}
  store := .memory ⟨[((.secret, alg), ⟨hashedKey alg, []⟩)]⟩
  reference := { name := alg, storage := .secret }
  options := {
    protectedHeader := (Header.insertText {} "alg" "none").insert "serial" (.int 7)
    header := Header.insertText {} "kid" alg }

theorem portable_hashedCall (alg : String) : PortableOptions (hashedCall alg).options :=
  ⟨Header.portable_insert (Header.portable_insertText (Header.portable_empty 126) "alg" "none")
      "serial" ⟨⟨by decide, by decide⟩, by decide⟩,
    Header.portable_insertText (Header.portable_empty 123) "kid" alg⟩

def curveKey (d : Option Bytes) : Jwk where
  labels := { alg := some "ES256K" }
  material := .ec ⟨Curve.secp256k1.text, Bytes.ofNat 32 Secp256k1.generator.x,
    Bytes.ofNat 32 Secp256k1.generator.y⟩ d

def curveCall : SignCall where
  config := {}
  store := .memory ⟨[((.secret, "ES256K"), ⟨curveKey (some (Bytes.ofNat 32 1)), []⟩)]⟩
  reference := { name := "ES256K", storage := .secret }
  options := {}

theorem counterpart_curveKey : Counterpart (.ecdsa .secp256k1 .sha256)
    (curveKey (some (Bytes.ofNat 32 1))) (curveKey none) := by
  obtain ⟨shown, hshown, hpaired⟩ := paired_ofScalar (d := 1) (by decide) (by decide)
  have hmade : Material.ofScalar 1 = (curveKey (some (Bytes.ofNat 32 1))).material := by
    decide +kernel
  obtain ⟨rfl, -⟩ := Material.ec.inj (hmade.symm.trans hshown)
  exact counterpart_ecdsa hpaired

theorem signAll_verifies_three :
    ∃ t text, signAll { payload := [104, 105] }
        [hashedCall "HS256", curveCall, hashedCall "HS512"] = .ok t ∧
      t.signatures.length = 3 ∧ t.serialize .general = .ok text ∧ deserialize text = .ok t ∧
      verify (Engine.software { verifyAllSignatures := false } (.memory {})) t
        [Jwk.oct [1], hashedKey "HS512", curveKey none, hashedKey "HS256"] none = .ok true := by
  have hok : (signAll { payload := [104, 105] }
      [hashedCall "HS256", curveCall, hashedCall "HS512"]).isOk = true := by
    decide +kernel
  obtain ⟨t, hsigned⟩ := exists_of_isOk hok
  have hverifies : ∀ c ∈ [hashedCall "HS256", curveCall, hashedCall "HS512"],
      c.VerifiesWith (if c.reference.name = "ES256K" then curveKey none
        else hashedKey c.reference.name) := by
    simp only [List.mem_cons, List.not_mem_nil, or_false, forall_eq_or_imp, forall_eq]
    exact ⟨⟨_, "HS256", _, rfl, rfl, rfl, counterpart_hmac .sha256 _ (by decide)⟩,
      ⟨_, "ES256K", _, rfl, rfl, rfl, counterpart_curveKey⟩,
      ⟨_, "HS512", _, rfl, rfl, rfl, counterpart_hmac .sha512 _ (by decide)⟩⟩
  have hportable : PortableOptions curveCall.options :=
    ⟨Header.portable_empty 126, Header.portable_empty 123⟩
  obtain ⟨⟨_, hlength, _⟩, text, htext, hread, hverify⟩ :=
    signAll_verifies (List.cons_ne_nil _ _) hsigned (by simp [portable_hashedCall, hportable])
      (by decide) _ hverifies
  exact ⟨t, text, hsigned, hlength, htext, hread,
    hverify _ _ _ _ (by simp [hashedCall, curveCall]) (.inl rfl)⟩

end JoseTokens.Jws
