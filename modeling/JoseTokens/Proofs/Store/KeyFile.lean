import JoseTokens.Proofs.Key.Form
import JoseTokens.Store.File

namespace JoseTokens

namespace FileStore

open Json Record

def KeysText (text : Bytes) (keys : List Jwk) : Prop :=
  ∃ items, ArrayText text items ∧ List.Forall₂ Jwk.KeyText items keys

def VersionText (text : Bytes) (version : Nat) : Prop :=
  version < Nat.pow 2 32 ∧ Denotes 0 text (.int version)

def slots : List (String × (Bytes → (Nat × List Jwk → Nat × List Jwk) → Prop)) := [
  ("version", SetBy VersionText fun version file => (version, file.2)),
  ("keys", SetBy KeysText fun keys file => (file.1, keys))]

theorem means_record (d : Nat) : record.Means (d + 2) (Meaning slots) :=
  means_of_slots (.cons ⟨rfl, parses_member (parses_natural _ _ _) _ _ _⟩
    (.cons ⟨rfl, parses_member (parses_list (Jwk.parses_read d)) _ _ _⟩ .nil)) (by decide)

theorem keysText_indented (level : Nat) (keys : List Jwk) :
    KeysText (indentedBytes level (.array (keys.map Jwk.toJson))) keys := by
  refine ⟨_, arrayText_indented level _, ?_⟩
  rw [List.map_map]
  induction keys with
  | nil => exact .nil
  | cons key keys ih => exact .cons (Jwk.keyText_indented (level + 1) key) ih

theorem versionText_indented (level : Nat) :
    VersionText (indentedBytes level (.int fileVersion)) fileVersion := by
  refine ⟨by decide, ?_⟩
  have hbytes : indentedBytes level (.int fileVersion) = bytes (.int fileVersion) := rfl
  rw [hbytes]
  exact denotes_whole fileVersion (by decide) 0

theorem document_render (c : Container) :
    Json.document (record.read (0, [])) (render c) = .ok (fileVersion, c.keys) := by
  have hparses := Record.parses_read (means_record 124) (by decide) (0, [])
  refine hparses.document_eq_ok_iff.mpr (.of_text ?_)
  have htext := objectText_indented 0
    [("version", .int fileVersion), ("keys", .array (c.keys.map Jwk.toJson))]
  have hnamed : Named record.names _ _ := named_of_known htext
    (fun m hm => List.mem_map_of_mem (f := (·.1)) hm) (by decide : record.names.Nodup)
  rw [render, Json.indented, Bytes.ofText_ofList]
  refine ⟨_, .inl hnamed, fun m hm _ => List.mem_map_of_mem (f := (·.name)) hm, ?_⟩
  exact .cons ⟨_, ⟨_, .head _, fileVersion, versionText_indented 1, rfl⟩, rfl⟩
    (.cons ⟨_, ⟨_, .tail _ (.head _), c.keys, keysText_indented 1 c.keys, rfl⟩, rfl⟩ (.nil _))

theorem parse_render (path : Path) (c : Container) : parse path (render c) = .ok c := by
  rw [parse, document_render]
  rfl

end FileStore

end JoseTokens
