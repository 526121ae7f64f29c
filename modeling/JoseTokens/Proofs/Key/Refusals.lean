import JoseTokens.Proofs.Key.PublicView
import JoseTokens.Proofs.Key.RoundTrip
import JoseTokens.Proofs.Text.Faults

namespace JoseTokens.Jwk

namespace Form

theorem find?_put_other {name other : String} (hother : other ≠ name) {value : Json}
    {form form' : Form} (h : put other value form = .ok form') :
    form'.find? name = form.find? name := by
  unfold put at h
  split at h
  · obtain ⟨keyType, -, rfl⟩ := map_eq_ok h
    rfl
  · split at h
    · split at h
      · cases h
        rfl
      · obtain ⟨text, -, rfl⟩ := map_eq_ok h
        exact if_neg hother
    · cases h
      rfl

theorem find?_putAll_other {name : String} {members : List (String × Json)}
    (hname : name ∉ members.map (·.1)) {form form' : Form} (h : form.putAll members = .ok form') :
    form'.find? name = form.find? name := by
  induction members generalizing form with
  | nil =>
      cases h
      rfl
  | cons m members ih =>
      obtain ⟨hfirst, hrest⟩ := not_or.mp (mt List.mem_cons.mpr hname)
      obtain ⟨between, hput, h⟩ := bind_eq_ok h
      rw [ih hrest h, find?_put_other (Ne.symm hfirst) hput]

theorem putAll_append {before after : List (String × Json)} {form form' : Form}
    (h : form.putAll (before ++ after) = .ok form') :
    ∃ between, form.putAll before = .ok between ∧ between.putAll after = .ok form' := by
  induction before generalizing form with
  | nil => exact ⟨form, rfl, h⟩
  | cons m before ih =>
      obtain ⟨next, hput, h⟩ := bind_eq_ok h
      obtain ⟨between, hbefore, hafter⟩ := ih h
      refine ⟨between, ?_, hafter⟩
      rw [putAll, hput]
      exact hbefore

theorem find?_ofValue {name text : String} (hname : name ∈ optionalNames)
    {before after : List (String × Json)} (hafter : name ∉ after.map (·.1)) {form : Form}
    (h : ofValue (.object (before ++ (name, .string text) :: after)) = .ok form) :
    form.find? name = some text := by
  obtain ⟨filled, hfilled, h⟩ := bind_eq_ok h
  split at h
  · cases h
    obtain ⟨between, -, hrest⟩ := putAll_append hfilled
    obtain ⟨next, hput, hrest⟩ := bind_eq_ok hrest
    rw [put_text hname] at hput
    cases hput
    rw [find?_putAll_other hafter hrest]
    exact if_pos rfl
  · cases h

def Blames (form : Form) {α : Type} (x : Except Error α) : Prop :=
  ∀ name fault, x = .error (.serialization (.base64 name fault)) →
    ∃ text, form.find? name = some text ∧ Base64Url.decode text = .error fault

variable {α β : Type} {form : Form}

theorem blames_ok (a : α) : form.Blames (.ok a) := by
  intro name fault h
  cases h

theorem blames_invalidKey (fault : KeyFault) :
    form.Blames (.error (.invalidKey fault) : Except Error α) := by
  intro name other h
  cases h

theorem Blames.bind {x : Except Error α} {f : α → Except Error β} (hx : form.Blames x)
    (hf : ∀ a, form.Blames (f a)) : form.Blames (x.bind f) := by
  intro name fault h
  rcases bind_eq_error h with h | ⟨a, -, h⟩
  · exact hx name fault h
  · exact hf a name fault h

theorem Blames.map {x : Except Error α} (hx : form.Blames x) (f : α → β) :
    form.Blames (x.map f) := by
  cases x with
  | ok a => exact blames_ok (f a)
  | error e =>
      intro name fault h
      cases h
      exact hx name fault rfl

theorem blames_decodeField {name text : String} (h : form.find? name = some text) :
    form.Blames (decodeField name text) := by
  intro other fault hrefused
  rw [decodeField] at hrefused
  split at hrefused
  · cases hrefused
  next hdecode =>
    cases hrefused
    exact ⟨text, h, hdecode⟩

theorem blames_required (name : String) : form.Blames (form.required name) := by
  rw [required]
  split
  next text hfind => exact blames_decodeField hfind
  · exact blames_invalidKey _

theorem blames_optional (name : String) : form.Blames (form.optional name) := by
  rw [optional]
  split
  next text hfind => exact (blames_decodeField hfind).map some
  · exact blames_ok none

theorem blames_curve : form.Blames form.curve := by
  rw [curve]
  split
  · exact blames_ok _
  · exact blames_invalidKey _

-- Members are read one after the other, and the first that cannot be read is the one to blame.

theorem blames_rsaSecret (d : Bytes) : form.Blames (form.rsaSecret d) :=
  (blames_required "p").bind fun _ => (blames_required "q").bind fun _ =>
    (blames_required "dp").bind fun _ => (blames_required "dq").bind fun _ =>
      (blames_required "qi").bind fun _ => blames_ok _

theorem blames_material : form.Blames form.material := by
  rw [Form.material]
  split
  · exact blames_curve.bind fun _ => (blames_required "x").bind fun _ =>
      (blames_required "y").bind fun _ => (blames_optional "d").bind fun _ => blames_ok _
  split
  · refine (blames_required "n").bind fun _ => (blames_required "e").bind fun _ =>
      (blames_optional "d").bind fun d => ?_
    cases d with
    | none => exact blames_ok _
    | some d => exact (blames_rsaSecret d).bind fun _ => blames_ok _
  split
  · exact blames_curve.bind fun _ => (blames_required "x").bind fun _ =>
      (blames_optional "d").bind fun _ => blames_ok _
  split
  · exact (blames_required "k").map _
  · exact blames_invalidKey _

theorem blames_toJwk : form.Blames form.toJwk :=
  blames_material.map _

end Form

def holding (name text : String) (before after : List (String × Json)) : Json :=
  .object (before ++ (name, .string text) :: after)

/-- The conversion to a key stops at this member, whose text is not in base64url. -/
def RefusedFor (name : String) (value : Json) : Prop :=
  ∃ form fault, Form.ofValue value = .ok form ∧
    form.toJwk = .error (.serialization (.base64 name fault))

def refusal (name : String) (fault : Base64Url.Fault) : Json.ReadError :=
  .refused (Error.serialization (.base64 name fault)).message

theorem refusal_message_inj {name : String} {fault fault' : Base64Url.Fault} :
    (refusal name fault).message = (refusal name fault').message ↔ fault = fault' := by
  have hmessage (fault : Base64Url.Fault) : (refusal name fault).message =
      "Serialization error: " ++ ("invalid base64url in " ++ name ++ ": " ++ fault.message) :=
    rfl
  rw [hmessage, hmessage, String.append_right_inj, String.append_right_inj,
    Base64Url.Fault.message_inj]

theorem RefusedFor.ofValue_eq {name text : String} {before after : List (String × Json)}
    (hname : name ∈ secretNames) (hafter : name ∉ after.map (·.1))
    (h : RefusedFor name (holding name text before after)) :
    ∃ fault, Base64Url.decode text = .error fault ∧
      ofValue (holding name text before after) = .error (refusal name fault) := by
  have hoptional : secretNames ⊆ Form.optionalNames := by decide
  obtain ⟨form, fault, hform, hjwk⟩ := h
  obtain ⟨found, hfind, hfault⟩ := Form.blames_toJwk name fault hjwk
  obtain rfl : text = found :=
    Option.some.inj ((Form.find?_ofValue (hoptional hname) hafter hform).symm.trans hfind)
  refine ⟨fault, hfault, ?_⟩
  simp only [ofValue, hform, hjwk]
  rfl

theorem refusals_alike_iff {name s s' : String} {before after : List (String × Json)}
    (hname : name ∈ secretNames) (hafter : name ∉ after.map (·.1))
    (h : RefusedFor name (holding name s before after))
    (h' : RefusedFor name (holding name s' before after)) :
    ∃ e e', ofValue (holding name s before after) = .error e ∧
      ofValue (holding name s' before after) = .error e' ∧
      (e.message = e'.message ↔ Base64Url.decode s = Base64Url.decode s') ∧
      (Base64Url.veil (Bytes.ofText s) = Base64Url.veil (Bytes.ofText s') →
        (Bytes.ofText s).getLast? = (Bytes.ofText s').getLast? → e.message = e'.message) := by
  obtain ⟨fault, hfault, herror⟩ := h.ofValue_eq hname hafter
  obtain ⟨fault', hfault', herror'⟩ := h'.ofValue_eq hname hafter
  refine ⟨_, _, herror, herror', ?_, fun hveil hlast => ?_⟩
  · rw [refusal_message_inj, hfault, hfault', Except.error.injEq]
  · rw [refusal_message_inj, ← Option.some.injEq, ← Base64Url.decode_eq_error_iff.mp hfault,
      ← Base64Url.decode_eq_error_iff.mp hfault']
    exact Base64Url.fault?_of_veil_eq hveil hlast

def secretWith (k : String) : Json :=
  holding "k" k [("kty", .string "oct")] []

theorem refusedFor_secretWith {k : String} {fault : Base64Url.Fault}
    (h : Base64Url.decode k = .error fault) : RefusedFor "k" (secretWith k) := by
  refine ⟨⟨"oct", [("k", k)]⟩, fault, rfl, ?_⟩
  have hfield : decodeField "k" k = .error (.serialization (.base64 "k" fault)) := by
    rw [decodeField, h]
  exact congrArg (Except.map _) (congrArg (Except.map Material.oct) hfield)

theorem refusals_alike_secrets :
    ∃ e e', ofValue (secretWith "AAAAAB") = .error e ∧ ofValue (secretWith "ZyZyZB") = .error e' ∧
      e.message = e'.message := by
  have hname : "k" ∈ secretNames := by decide
  have hfault : Base64Url.decode "AAAAAB" = .error (.invalidLastSymbol 5 66) := by decide +kernel
  have hfault' : Base64Url.decode "ZyZyZB" = .error (.invalidLastSymbol 5 66) := by decide +kernel
  obtain ⟨e, e', he, he', -, halike⟩ := refusals_alike_iff hname List.not_mem_nil
    (refusedFor_secretWith hfault) (refusedFor_secretWith hfault')
  exact ⟨e, e', he, he', halike (by decide +kernel) (by decide +kernel)⟩

theorem not_refusals_alike :
    ¬ ∀ name ∈ secretNames, ∀ (s s' : String) (before after : List (String × Json)),
      ((before ++ (name, .string s) :: after).map (·.1)).Nodup →
        RefusedFor name (holding name s before after) →
          RefusedFor name (holding name s' before after) →
            ∃ e e', ofValue (holding name s before after) = .error e ∧
              ofValue (holding name s' before after) = .error e' ∧ e.message = e'.message := by
  intro hall
  have hfault : Base64Url.decode "AB" = .error (.invalidLastSymbol 1 66) := by decide +kernel
  have hfault' : Base64Url.decode "AC" = .error (.invalidLastSymbol 1 67) := by decide +kernel
  obtain ⟨e, e', he, he', hmessage⟩ := hall "k" (by decide) "AB" "AC" [("kty", .string "oct")] []
    (by decide) (refusedFor_secretWith hfault) (refusedFor_secretWith hfault')
  have hrefused : ofValue (secretWith "AB") = .error (refusal "k" (.invalidLastSymbol 1 66)) := by
    decide +kernel
  have hrefused' : ofValue (secretWith "AC") = .error (refusal "k" (.invalidLastSymbol 1 67)) := by
    decide +kernel
  obtain rfl := Except.error.inj (he.symm.trans hrefused)
  obtain rfl := Except.error.inj (he'.symm.trans hrefused')
  exact absurd (refusal_message_inj.mp hmessage) (by decide)

end JoseTokens.Jwk
