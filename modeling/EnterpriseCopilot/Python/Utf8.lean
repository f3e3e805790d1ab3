import Mathlib.Data.List.Induction
import EnterpriseCopilot.Python.Basic

/-! Bytes as UTF-8. -/

namespace EnterpriseCopilot.Python

/-- `value.decode("utf-8", errors="strict")`: nothing where it raises `UnicodeDecodeError`. -/
def decode (value : Bytes) : Option String := String.fromUTF8? value.toByteArray

section Decode

variable {value before after : Bytes} {text : String}

theorem toByteArray_eq (text : String) : text.toByteArray = (utf8 text).toByteArray :=
  String.utf8Encode_toList.symm

/-- The bytes that a text is stored as. -/
theorem utf8_eq (text : String) : utf8 text = text.toByteArray.data.toList := by
  rw [toByteArray_eq, List.data_toByteArray]

theorem decode_eq_some : decode value = some text ↔ utf8 text = value := by
  have hvalid : (utf8 text).toByteArray.IsValidUTF8 := by
    rw [← toByteArray_eq]
    exact text.isValidUTF8
  constructor
  · intro h
    unfold decode String.fromUTF8? at h
    split at h
    · cases h
      exact List.toByteArray_inj.mp (toByteArray_eq _).symm
    · cases h
  · rintro rfl
    unfold decode String.fromUTF8?
    rw [dif_pos hvalid]
    exact congrArg some (String.toByteArray_inj.mp (toByteArray_eq text).symm)

theorem utf8_injective : Function.Injective utf8 := by
  intro s t h
  have hs := decode_eq_some.mpr h
  rw [decode_eq_some.mpr rfl] at hs
  exact (Option.some.inj hs).symm

theorem utf8_append (s t : String) : utf8 (s ++ t) = utf8 s ++ utf8 t := by
  simp [utf8]

/-- A byte below 128 is a character of its own. -/
theorem encode_ascii_byte {c : Char} {b : UInt8} (hmem : b ∈ String.utf8EncodeChar c) (h : b < 128) :
    String.utf8EncodeChar c = [b] := by
  have hb : b.toNat < 128 := h
  unfold String.utf8EncodeChar at hmem ⊢
  dsimp only at hmem ⊢
  split at hmem
  · rw [if_pos ‹_›, List.mem_singleton.mp hmem]
  · exfalso
    split at hmem
    · rcases List.mem_pair.mp hmem with rfl | rfl
      · simp only [UInt8.toNat_ofNat'] at hb
        omega
      · simp only [UInt8.toNat_ofNat'] at hb
        omega
    · split at hmem
      · simp only [List.mem_cons, List.not_mem_nil, or_false] at hmem
        rcases hmem with rfl | rfl | rfl <;>
          · simp only [UInt8.toNat_ofNat'] at hb
            omega
      · simp only [List.mem_cons, List.not_mem_nil, or_false] at hmem
        rcases hmem with rfl | rfl | rfl | rfl <;>
          · simp only [UInt8.toNat_ofNat'] at hb
            omega

/-- ASCII bytes in front do not matter. -/
theorem utf8_of_prefix (hascii : ∀ b ∈ before, b < 128) (h : utf8 text = before ++ after) :
    ∃ rest, utf8 rest = after := by
  induction before generalizing text with
  | nil => exact ⟨text, h⟩
  | cons b before ih =>
    obtain ⟨hb, hbefore⟩ := List.forall_mem_cons.mp hascii
    obtain ⟨l, rfl⟩ : ∃ l, text = String.ofList l := ⟨_, (String.ofList_toList).symm⟩
    rw [utf8, String.toList_ofList] at h
    cases l with
    | nil => cases h
    | cons c l =>
      obtain ⟨d, rest, hc⟩ := List.exists_cons_of_ne_nil (String.utf8EncodeChar_ne_nil (c := c))
      rw [List.flatMap_cons, hc] at h
      obtain ⟨rfl, htail⟩ := List.cons.inj h
      obtain ⟨-, rfl⟩ := List.cons.inj (hc.symm.trans (encode_ascii_byte (hc ▸ .head rest) hb))
      have htext : utf8 (String.ofList l) = before ++ after := by
        rw [utf8, String.toList_ofList]
        exact htail
      exact ih hbefore htext

/-- ASCII bytes behind do not matter either. -/
theorem utf8_of_suffix (hascii : ∀ b ∈ after, b < 128) (h : utf8 text = before ++ after) :
    ∃ rest, utf8 rest = before := by
  induction after using List.reverseRecOn generalizing text with
  | nil => exact ⟨text, by rw [h, List.append_nil]⟩
  | append_singleton after b ih =>
    obtain ⟨l, rfl⟩ : ∃ l, text = String.ofList l := ⟨_, (String.ofList_toList).symm⟩
    have hb : b < 128 := hascii b (by simp)
    rw [utf8, String.toList_ofList, ← List.append_assoc] at h
    rcases List.eq_nil_or_concat l with rfl | ⟨l, c, rfl⟩
    · simp at h
    · rw [List.concat_eq_append, List.flatMap_append, List.flatMap_singleton] at h
      obtain hnil | ⟨rest, d, hc⟩ := List.eq_nil_or_concat (String.utf8EncodeChar c)
      · exact absurd hnil String.utf8EncodeChar_ne_nil
      rw [List.concat_eq_append] at hc
      rw [hc, ← List.append_assoc] at h
      obtain ⟨hinit, hlast⟩ := List.append_inj' h rfl
      obtain rfl := List.singleton_inj.mp hlast
      obtain ⟨rfl, -⟩ := List.append_inj' (hc.symm.trans (encode_ascii_byte (by rw [hc]; simp) hb) : rest ++ [d] = [] ++ [d]) rfl
      rw [List.append_nil] at hinit
      have htext : utf8 (String.ofList l) = before ++ after := by
        rw [utf8, String.toList_ofList]
        exact hinit
      exact ih (fun c hc => hascii c (by simp [hc])) htext

end Decode

end EnterpriseCopilot.Python
