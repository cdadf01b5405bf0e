import Mathlib.Data.List.Lex
import Mathlib.Data.Nat.Basic
import Mathlib.Tactic.Common

/-! The order of texts by their bytes. UTF-8 keeps the order of the characters, so this is the order by
characters. -/

namespace Rollout.Text

def bytes (s : String) : List UInt8 := s.toByteArray.data.toList

/-- Whether a text stands before another one when their bytes are compared. -/
def Below (s t : String) : Prop := bytes s < bytes t

instance : DecidableRel Below := fun s t => inferInstanceAs (Decidable (bytes s < bytes t))

theorem utf8EncodeChar_append_lt {c d : Char} (h : c < d) (xs ys : List UInt8) :
    String.utf8EncodeChar c ++ xs < String.utf8EncodeChar d ++ ys := by
  have hlt : c.val.toNat < d.val.toNat := h
  have hd : d.val.toNat < 0x110000 := by
    have hvalid : d.val.toNat < 0xD800 ∨ 0xDFFF < d.val.toNat ∧ d.val.toNat < 0x110000 := d.valid
    omega
  simp only [String.utf8EncodeChar]
  generalize c.val.toNat = m at hlt
  generalize d.val.toNat = n at hlt hd
  -- a longer code begins with a greater byte, and in codes of one length the first digits decide
  split_ifs <;>
    simp only [List.cons_append, List.nil_append, List.cons_lt_cons_iff, UInt8.lt_iff_toNat_lt,
      ← UInt8.toNat_inj, UInt8.toNat_ofNat', Nat.reducePow] <;>
    simp (disch := omega) only [Nat.mod_eq_of_lt] <;>
    omega

theorem bytes_eq (s : String) : bytes s = s.toList.flatMap String.utf8EncodeChar := by
  rw [bytes, ← String.ofList_toList (s := s), String.toByteArray_ofList, String.ofList_toList, List.utf8Encode,
    List.data_toByteArray]

theorem flatMap_utf8EncodeChar_lt {cs ds : List Char} (h : cs < ds) :
    cs.flatMap String.utf8EncodeChar < ds.flatMap String.utf8EncodeChar := by
  induction h with
  | @nil d ds =>
    obtain ⟨b, bs, hb⟩ := List.exists_cons_of_ne_nil (String.utf8EncodeChar_ne_nil (c := d))
    rw [List.flatMap_nil, List.flatMap_cons, hb]
    exact .nil
  | @cons c cs ds h ih =>
    rw [List.flatMap_cons, List.flatMap_cons]
    exact .append_left _ ih _
  | rel hcd =>
    rw [List.flatMap_cons, List.flatMap_cons]
    exact utf8EncodeChar_append_lt hcd _ _

theorem below_iff_lt {s t : String} : Below s t ↔ s < t := by
  have hmono : ∀ {s t : String}, s < t → Below s t := fun {s t} h => by
    rw [Below, bytes_eq, bytes_eq]
    exact flatMap_utf8EncodeChar_lt h
  refine ⟨fun h => ?_, hmono⟩
  by_contra hge
  by_cases he : t = s
  · subst he
    exact Std.lt_irrefl (a := bytes t) h
  · have hback : bytes t < bytes s := hmono (Std.lt_of_le_of_ne (Std.not_lt.mp hge) he)
    exact Std.not_gt_of_lt (a := bytes s) h hback

end Rollout.Text
