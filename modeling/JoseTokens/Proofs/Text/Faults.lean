import JoseTokens.Proofs.Text.Base64Url
import Mathlib.Data.List.Basic

namespace JoseTokens.Base64Url

def veilByte (b : UInt8) : UInt8 :=
  if (value? b).isSome then 65 else b

def veil (text : Bytes) : Bytes :=
  text.map veilByte

theorem value?_veilByte (b : UInt8) : value? (veilByte b) = (value? b).map fun _ => 0 := by
  rw [veilByte]
  cases h : value? b with
  | none => simp [h]
  | some n => rfl

theorem veilByte_of_foreign {b : UInt8} (h : value? b = none) : veilByte b = b := by
  rw [veilByte, h]
  rfl

theorem veilByte_eq_pad_iff {b : UInt8} : veilByte b = pad ↔ b = pad := by
  constructor
  · intro h
    have hvalue := value?_veilByte b
    rw [h, value?_pad, eq_comm, Option.map_eq_none_iff] at hvalue
    rwa [veilByte_of_foreign hvalue] at h
  · rintro rfl
    rfl

theorem foreignByte?_veil (offset : Nat) (text : Bytes) :
    foreignByte? offset (veil text) = foreignByte? offset text := by
  induction text generalizing offset with
  | nil => rfl
  | cons b rest ih =>
      rw [veil] at ih
      rw [veil, List.map_cons, foreignByte?, foreignByte?, value?_veilByte, ih]
      cases hb : value? b with
      | none => rw [veilByte_of_foreign hb]; rfl
      | some n => rfl

theorem pieceFault?_veil (start position : Nat) (padAt : Option Nat) (text : Bytes) :
    pieceFault? start position padAt (veil text) = pieceFault? start position padAt text := by
  induction text generalizing position padAt with
  | nil => rfl
  | cons b rest ih =>
      rw [veil] at ih
      simp only [veil, List.map_cons, pieceFault?, veilByte_eq_pad_iff, value?_veilByte, ih]
      cases hb : value? b with
      | none => rw [veilByte_of_foreign hb]; rfl
      | some n => rfl

theorem spareBits_zero (length : Nat) : spareBits length 0 = 0 := by
  rw [spareBits]
  split <;> rfl

theorem lastSymbolFault?_veil (text : Bytes) : lastSymbolFault? (veil text) = none := by
  rw [lastSymbolFault?, veil, List.getLast?_map]
  cases hlast : text.getLast? with
  | none => rfl
  | some b =>
      -- The symbol that stands for all has no bits that could be left over.
      have hzero : (value? (veilByte b)).getD 0 = 0 := by
        rw [value?_veilByte]
        cases value? b <;> rfl
      simp only [Option.map_some, hzero, spareBits_zero, if_true]

theorem lastSymbolFault?_of_length {text : Bytes} (h : text.length % 4 = 1) :
    lastSymbolFault? text = none := by
  have hspare (last : Nat) : spareBits text.length last = 0 := by
    simp only [spareBits, h]
  rw [lastSymbolFault?]
  cases text.getLast? with
  | none => rfl
  | some b => exact if_pos (hspare _)

theorem fault?_eq_veil (text : Bytes) :
    fault? text = (fault? (veil text)).or (lastSymbolFault? text) := by
  have hlength : (veil text).length = text.length := List.length_map _
  by_cases hmod : text.length % 4 = 1
  · rw [lastSymbolFault?_of_length hmod, Option.or_none, fault?, fault?, if_pos hmod, hlength,
      if_pos hmod, veil, List.getLast?_map]
    cases text.getLast? with
    | none => rfl
    | some b =>
        simp only [Option.map_some, veilByte_eq_pad_iff, value?_veilByte, Option.isSome_map]
        cases hb : value? b with
        | none => rw [veilByte_of_foreign hb]
        | some n => simp only [Option.isSome_some, or_true, if_true]
  · -- Neither pass over the text names a symbol, so that only the last check is left.
    have htake (k : Nat) : (veil text).take k = veil (text.take k) := List.map_take.symm
    have hdrop (k : Nat) : (veil text).drop k = veil (text.drop k) := List.map_drop.symm
    rw [fault?, fault?, if_neg hmod, hlength, if_neg hmod]
    simp only [htake, hdrop, foreignByte?_veil, pieceFault?_veil, lastSymbolFault?_veil,
      Option.or_none, Option.or_assoc]

theorem fault?_of_veil_eq {text text' : Bytes} (h : veil text = veil text')
    (hlast : text.getLast? = text'.getLast?) : fault? text = fault? text' := by
  have hlength : text.length = text'.length := by
    simpa only [veil, List.length_map] using congrArg List.length h
  have hspare : lastSymbolFault? text = lastSymbolFault? text' := by
    rw [lastSymbolFault?, lastSymbolFault?, hlast, hlength]
  rw [fault?_eq_veil text, fault?_eq_veil text', h, hspare]

theorem decode_eq_error_iff {text : String} {fault : Fault} :
    decode text = .error fault ↔ fault? (Bytes.ofText text) = some fault := by
  simp only [decode]
  cases fault? (Bytes.ofText text) with
  | none => simp
  | some found => simp

theorem repr_inj {a b : Nat} (h : a.repr = b.repr) : a = b := by
  have hdigits : Nat.toDigits 10 a = Nat.toDigits 10 b := by
    rw [← Nat.toList_repr, ← Nat.toList_repr, h]
  calc
    a = Nat.ofDigitChars 10 (Nat.toDigits 10 a) 0 := Nat.ofDigitChars_ten_toDigits.symm
    _ = Nat.ofDigitChars 10 (Nat.toDigits 10 b) 0 := by rw [hdigits]
    _ = b := Nat.ofDigitChars_ten_toDigits

theorem comma_not_mem_repr (n : Nat) : ',' ∉ n.repr.toList := by
  rw [Nat.toList_repr]
  intro hmem
  have hdigit := Nat.isDigit_of_mem_toDigits (by decide) (by decide) hmem
  exact absurd hdigit (by decide)

def numbered (stem : String) (number offset : Nat) : String :=
  stem ++ number.repr ++ ", offset " ++ offset.repr ++ "."

theorem toList_numbered (stem : String) (number offset : Nat) :
    (numbered stem number offset).toList = stem.toList ++ (number.repr.toList ++
      ',' :: (" offset ".toList ++ (offset.repr.toList ++ ".".toList))) := by
  have hcomma : ", offset ".toList = ',' :: " offset ".toList := rfl
  simp only [numbered, String.toList_append, hcomma, List.append_assoc, List.cons_append]

theorem numbered_inj {stem : String} {a b offset offset' : Nat}
    (h : numbered stem a offset = numbered stem b offset') : a = b ∧ offset = offset' := by
  -- There is one comma in such a text, since digits are none, and it ends the first number.
  have hrest : ',' ∉ " offset ".toList ++ (offset.repr.toList ++ ".".toList) := by
    simp only [List.mem_append, not_or]
    exact ⟨by decide, comma_not_mem_repr offset, by decide⟩
  have hlists := congrArg String.toList h
  rw [toList_numbered, toList_numbered, List.append_cancel_left_eq] at hlists
  obtain ⟨hnumber, -, hoffset⟩ :=
    (List.append_cons_inj_of_notMem (comma_not_mem_repr a) hrest).mp hlists
  rw [List.append_cancel_left_eq, List.append_cancel_right_eq] at hoffset
  exact ⟨repr_inj (String.toList_inj.mp hnumber), repr_inj (String.toList_inj.mp hoffset)⟩

namespace Fault

theorem message_invalidByte (offset : Nat) (byte : UInt8) :
    (invalidByte offset byte).message = numbered "Invalid byte " byte.toNat offset :=
  rfl

theorem message_invalidLastSymbol (offset : Nat) (byte : UInt8) :
    (invalidLastSymbol offset byte).message =
      numbered "Invalid last symbol " byte.toNat offset :=
  rfl

def letter : Fault → Char
  | invalidByte _ _ => 'b'
  | invalidLength => 't'
  | invalidPadding => 'p'
  | invalidLastSymbol _ _ => 'l'

theorem letter_message (fault : Fault) : fault.message.toList[8]? = some fault.letter := by
  cases fault with
  | invalidByte offset byte =>
      rw [message_invalidByte, toList_numbered, List.getElem?_append_left (by decide)]
      rfl
  | invalidLength => rfl
  | invalidPadding => rfl
  | invalidLastSymbol offset byte =>
      rw [message_invalidLastSymbol, toList_numbered, List.getElem?_append_left (by decide)]
      rfl

theorem message_inj {f g : Fault} : f.message = g.message ↔ f = g := by
  refine ⟨fun h => ?_, congrArg message⟩
  have hletter : f.letter = g.letter := by
    rw [← Option.some.injEq, ← letter_message, ← letter_message, h]
  cases f with
  | invalidByte offset byte =>
      cases g with
      | invalidByte offset' byte' =>
          obtain ⟨hbyte, rfl⟩ := numbered_inj h
          rw [UInt8.toNat_inj.mp hbyte]
      | _ => simp [letter] at hletter
  | invalidLength =>
      cases g with
      | invalidLength => rfl
      | _ => simp [letter] at hletter
  | invalidPadding =>
      cases g with
      | invalidPadding => rfl
      | _ => simp [letter] at hletter
  | invalidLastSymbol offset byte =>
      cases g with
      | invalidLastSymbol offset' byte' =>
          obtain ⟨hbyte, rfl⟩ := numbered_inj h
          rw [UInt8.toNat_inj.mp hbyte]
      | _ => simp [letter] at hletter

end Fault

end JoseTokens.Base64Url
