import Mathlib.Data.List.Basic
import ToolRoster.Text.Utf8
/-!
# Bytes of a text

Reading puts up with any bytes, but it changes nothing in the bytes of a text: every character is
found again, one after the other, and no byte is left over.
-/
namespace ToolRoster.Text.Utf8

theorem within_iff {low high : Nat} {b : UInt8} :
    within low high b = true ↔ low ≤ b.toNat ∧ b.toNat ≤ high := by
  simp [within]

section
variable {a b c d : UInt8} (rest : List UInt8)

theorem decodeHead_one (h : a.toNat < 0x80) : decodeHead a rest = (Char.ofNat a.toNat, 0) := by
  simp only [decodeHead, if_pos h]

theorem decodeHead_two (hlow : 0xC2 ≤ a.toNat) (hhigh : a.toNat ≤ 0xDF) (hb : tail b = true) :
    decodeHead a (b :: rest) = (join [b] (a.toNat - 0xC0), 1) := by
  have hone : ¬ a.toNat < 0x80 := by omega
  simp only [decodeHead, if_neg hone, hlow, hhigh, hb, decide_true, Bool.and_self, if_true]

theorem decodeHead_three (hlow : 0xE0 ≤ a.toNat) (hhigh : a.toNat ≤ 0xEF) (hb : second3 a b = true)
    (hc : tail c = true) :
    decodeHead a (b :: c :: rest) = (join [b, c] (a.toNat - 0xE0), 2) := by
  have hone : ¬ a.toNat < 0x80 := by omega
  have htwo : ¬ a.toNat ≤ 0xDF := by omega
  simp only [decodeHead, if_neg hone, htwo, hlow, hhigh, hb, hc, decide_true, decide_false,
    Bool.and_self, Bool.and_false, Bool.false_eq_true, if_true, if_false]

theorem decodeHead_four (hlow : 0xF0 ≤ a.toNat) (hhigh : a.toNat ≤ 0xF4) (hb : second4 a b = true)
    (hc : tail c = true) (hd : tail d = true) :
    decodeHead a (b :: c :: d :: rest) = (join [b, c, d] (a.toNat - 0xF0), 3) := by
  have hone : ¬ a.toNat < 0x80 := by omega
  have htwo : ¬ a.toNat ≤ 0xDF := by omega
  have hthree : ¬ a.toNat ≤ 0xEF := by omega
  simp only [decodeHead, if_neg hone, htwo, hthree, hlow, hhigh, hb, hc, hd, decide_true,
    decide_false, Bool.and_self, Bool.and_false, Bool.false_eq_true, if_true, if_false]

end

theorem second_of {a b first last : UInt8} {low high : Nat} (hb : tail b = true)
    (hlow : a.toNat = first.toNat → low ≤ b.toNat) (hhigh : a.toNat = last.toNat → b.toNat ≤ high) :
    (if a = first then within low 0xBF b else if a = last then within 0x80 high b else tail b) =
      true := by
  obtain ⟨htail, htail'⟩ := within_iff.mp hb
  split_ifs with hfirst hlast
  · exact within_iff.mpr ⟨hlow (congrArg UInt8.toNat hfirst), htail'⟩
  · exact within_iff.mpr ⟨htail, hhigh (congrArg UInt8.toNat hlast)⟩
  · exact hb

theorem second3_of {a b : UInt8} (hb : tail b = true) (hlow : a.toNat = 0xE0 → 0xA0 ≤ b.toNat)
    (hhigh : a.toNat = 0xED → b.toNat ≤ 0x9F) : second3 a b = true :=
  second_of hb hlow hhigh

theorem second4_of {a b : UInt8} (hb : tail b = true) (hlow : a.toNat = 0xF0 → 0x90 ≤ b.toNat)
    (hhigh : a.toNat = 0xF4 → b.toNat ≤ 0x8F) : second4 a b = true :=
  second_of hb hlow hhigh

theorem toNat_lead {n range mark : Nat} (h : n < range) (hmark : range + mark ≤ 0x100) :
    (UInt8.ofNat (n % range + mark)).toNat = n + mark := by
  rw [Nat.mod_eq_of_lt h]
  exact UInt8.toNat_ofNat_of_lt' (by simp only [UInt8.size]; omega)

theorem toNat_trail (n : Nat) : (UInt8.ofNat (n % 0x40 + 0x80)).toNat = n % 0x40 + 0x80 :=
  UInt8.toNat_ofNat_of_lt' (by simp only [UInt8.size]; omega)

theorem tail_trail (n : Nat) : tail (UInt8.ofNat (n % 0x40 + 0x80)) = true := by
  apply within_iff.mpr
  rw [toNat_trail]
  omega

theorem join_eq {parts : List UInt8} {lead : Nat} {c : Char}
    (h : parts.foldl (fun n b => n * 64 + (b.toNat - 0x80)) lead = c.toNat) :
    join parts lead = c := by
  rw [join, h, Char.ofNat_toNat]

theorem decodeLossy_of_head {a : UInt8} {more rest : List UInt8} {c : Char}
    (h : decodeHead a (more ++ rest) = (c, more.length)) :
    decodeLossy (a :: more ++ rest) = c :: decodeLossy rest := by
  rw [List.cons_append, decodeLossy]
  simp only [h, List.drop_left]

section
variable {c : Char} (rest : List UInt8)

theorem decodeLossy_one (h : c.toNat ≤ 0x7f) :
    decodeLossy ([UInt8.ofNat c.toNat] ++ rest) = c :: decodeLossy rest := by
  have ha : (UInt8.ofNat c.toNat).toNat = c.toNat :=
    UInt8.toNat_ofNat_of_lt' (by simp only [UInt8.size]; omega)
  apply decodeLossy_of_head
  rw [decodeHead_one _ (by omega), ha, Char.ofNat_toNat, List.length_nil]

theorem decodeLossy_two (hlow : 0x7f < c.toNat) (hhigh : c.toNat ≤ 0x7ff) :
    decodeLossy ([UInt8.ofNat (c.toNat / 64 % 0x20 + 0xc0), UInt8.ofNat (c.toNat % 0x40 + 0x80)] ++
      rest) = c :: decodeLossy rest := by
  have ha : (UInt8.ofNat (c.toNat / 64 % 0x20 + 0xc0)).toNat = c.toNat / 64 + 0xc0 :=
    toNat_lead (by omega) (by omega)
  apply decodeLossy_of_head
  rw [List.cons_append, decodeHead_two _ (by omega) (by omega) (tail_trail _), join_eq]
  · rfl
  · simp only [List.foldl_cons, List.foldl_nil, toNat_trail, ha]
    omega

theorem decodeLossy_three (hlow : 0x7ff < c.toNat) (hhigh : c.toNat ≤ 0xffff) :
    decodeLossy ([UInt8.ofNat (c.toNat / 4096 % 0x10 + 0xe0),
      UInt8.ofNat (c.toNat / 64 % 0x40 + 0x80), UInt8.ofNat (c.toNat % 0x40 + 0x80)] ++ rest) =
      c :: decodeLossy rest := by
  have ha : (UInt8.ofNat (c.toNat / 4096 % 0x10 + 0xe0)).toNat = c.toNat / 4096 + 0xe0 :=
    toNat_lead (by omega) (by omega)
  have hb := toNat_trail (c.toNat / 64)
  -- After `0xED` half of the second bytes are refused; those numbers are no characters.
  have hvalid : c.toNat < 0xD800 ∨ 0xDFFF < c.toNat ∧ c.toNat < 0x110000 := c.valid
  have hsecond : second3 (UInt8.ofNat (c.toNat / 4096 % 0x10 + 0xe0))
      (UInt8.ofNat (c.toNat / 64 % 0x40 + 0x80)) = true :=
    second3_of (tail_trail _) (by omega) (by omega)
  apply decodeLossy_of_head
  rw [List.cons_append, List.cons_append,
    decodeHead_three _ (by omega) (by omega) hsecond (tail_trail _), join_eq]
  · rfl
  · simp only [List.foldl_cons, List.foldl_nil, toNat_trail, ha]
    omega

theorem decodeLossy_four (h : 0xffff < c.toNat) :
    decodeLossy ([UInt8.ofNat (c.toNat / 262144 % 0x08 + 0xf0),
      UInt8.ofNat (c.toNat / 4096 % 0x40 + 0x80), UInt8.ofNat (c.toNat / 64 % 0x40 + 0x80),
      UInt8.ofNat (c.toNat % 0x40 + 0x80)] ++ rest) = c :: decodeLossy rest := by
  have hvalid : c.toNat < 0xD800 ∨ 0xDFFF < c.toNat ∧ c.toNat < 0x110000 := c.valid
  have ha : (UInt8.ofNat (c.toNat / 262144 % 0x08 + 0xf0)).toNat = c.toNat / 262144 + 0xf0 :=
    toNat_lead (by omega) (by omega)
  have hb := toNat_trail (c.toNat / 4096)
  have hsecond : second4 (UInt8.ofNat (c.toNat / 262144 % 0x08 + 0xf0))
      (UInt8.ofNat (c.toNat / 4096 % 0x40 + 0x80)) = true :=
    second4_of (tail_trail _) (by omega) (by omega)
  apply decodeLossy_of_head
  rw [List.cons_append, List.cons_append, List.cons_append,
    decodeHead_four _ (by omega) (by omega) hsecond (tail_trail _) (tail_trail _), join_eq]
  · rfl
  · simp only [List.foldl_cons, List.foldl_nil, toNat_trail, ha]
    omega

end

theorem decodeLossy_utf8EncodeChar (c : Char) (rest : List UInt8) :
    decodeLossy (String.utf8EncodeChar c ++ rest) = c :: decodeLossy rest := by
  unfold String.utf8EncodeChar
  simp only [Char.toNat_val]
  split_ifs with hone htwo hthree
  · exact decodeLossy_one rest hone
  · exact decodeLossy_two rest (by omega) htwo
  · exact decodeLossy_three rest (by omega) hthree
  · exact decodeLossy_four rest (by omega)

theorem decodeLossy_encode (cs : List Char) : decodeLossy (encode cs) = cs := by
  induction cs with
  | nil => rw [encode, List.flatMap_nil, decodeLossy]
  | cons c cs ih =>
    rw [encode, List.flatMap_cons, decodeLossy_utf8EncodeChar]
    exact congrArg (c :: ·) ih

end ToolRoster.Text.Utf8
