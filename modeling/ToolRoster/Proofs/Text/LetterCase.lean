import Mathlib.Data.List.Forall2
import ToolRoster.Text.LowerCase
/-!
# Texts that differ in case

A word is met in any ASCII case: each of its letters as the capital or as the small form. Lowering by
the Unicode rule gives no more than that, for words without the letters i and k. These two are what
a letter outside ASCII can become.
-/
namespace ToolRoster.Text

def letters : List (Char × Char) :=
  "ABCDEFGHIJKLMNOPQRSTUVWXYZ".toList.zip "abcdefghijklmnopqrstuvwxyz".toList

def SameLetter (c d : Char) : Prop := c = d ∨ (c, d) ∈ letters ∨ (d, c) ∈ letters

/-- Texts that are the same character by character, up to the case of ASCII letters. -/
def SameButCase (cs ds : List Char) : Prop := List.Forall₂ SameLetter cs ds

instance (c d : Char) : Decidable (SameLetter c d) := inferInstanceAs (Decidable (_ ∨ _ ∨ _))

instance (cs ds : List Char) : Decidable (SameButCase cs ds) :=
  inferInstanceAs (Decidable (List.Forall₂ SameLetter cs ds))

theorem toLower_of_mem_letters {l : Char × Char} (h : l ∈ letters) :
    l.1.toLower = l.2 ∧ l.2.toLower = l.2 := by
  revert l
  decide

theorem eq_of_mem_letters {c d low : Char} (hc : (c, low) ∈ letters) (hd : (d, low) ∈ letters) :
    c = d := by
  have hone : ∀ l ∈ letters, ∀ m ∈ letters, l.2 = m.2 → l.1 = m.1 := by decide
  exact hone _ hc _ hd rfl

theorem mem_letters_of_range (n : Nat) (hn : n < 26) :
    (Char.ofNat (65 + n), (Char.ofNat (65 + n)).toLower) ∈ letters := by
  revert n
  decide

theorem mem_letters_or (c : Char) : (c, c.toLower) ∈ letters ∨ c.toLower = c := by
  by_cases h : 65 ≤ c.toNat ∧ c.toNat ≤ 90
  · left
    have hmem := mem_letters_of_range (c.toNat - 65) (by omega)
    rwa [show 65 + (c.toNat - 65) = c.toNat by omega, Char.ofNat_toNat] at hmem
  · right
    unfold Char.toLower
    rw [dif_neg]
    exact h

theorem sameLetter_iff {c d : Char} : SameLetter c d ↔ c.toLower = d.toLower := by
  constructor
  · rintro (rfl | h | h)
    · rfl
    · obtain ⟨hc, hd⟩ := toLower_of_mem_letters h
      exact hc.trans hd.symm
    · obtain ⟨hd, hc⟩ := toLower_of_mem_letters h
      exact hc.trans hd.symm
  · intro h
    rcases mem_letters_or c with hc | hc <;> rcases mem_letters_or d with hd | hd
    · exact Or.inl (eq_of_mem_letters hc (h ▸ hd))
    · exact Or.inr (Or.inl (hd ▸ h ▸ hc))
    · exact Or.inr (Or.inr (hc ▸ h ▸ hd))
    · exact Or.inl (hc.symm.trans (h.trans hd))

theorem sameButCase_iff {cs ds : List Char} :
    SameButCase cs ds ↔ cs.map Char.toLower = ds.map Char.toLower := by
  have hletters : SameLetter = fun c d => c.toLower = d.toLower := by
    funext c d
    exact propext sameLetter_iff
  rw [SameButCase, hletters, ← List.forall₂_eq_eq_eq, List.forall₂_map_left_iff,
    List.forall₂_map_right_iff]

theorem sameButCase_iff_of_small {cs word : List Char} (hw : word.map Char.toLower = word) :
    SameButCase cs word ↔ cs.map Char.toLower = word := by
  rw [sameButCase_iff, hw]

theorem small_of_ascii {c : Char} (h : c.toNat < 0x80) : small c = [c.toLower] := if_pos h

theorem toLower_of_not_ascii {c : Char} (h : 0x80 ≤ c.toNat) : c.toLower = c := by
  rcases mem_letters_or c with hc | hc
  · have hascii : ∀ l ∈ letters, l.1.toNat < 0x80 := by decide
    have hlow : c.toNat < 0x80 := hascii _ hc
    omega
  · exact hc

/-- The table leads out of ASCII once, from the Kelvin sign to the letter k. -/
theorem small_capitalRuns : ∀ r ∈ capitalRuns, (r.first = r.last ∧ r.small = 0x6B) ∨
    0x80 ≤ r.small ∧ (r.small + (r.last - r.first) < 0xD800 ∨
      0xDFFF < r.small ∧ r.small + (r.last - r.first) < 0x110000) := by
  decide +kernel

theorem toNat_ofNat {n : Nat} (h : n < 0xD800 ∨ 0xDFFF < n ∧ n < 0x110000) :
    (Char.ofNat n).toNat = n := by
  have hvalid : n.isValidChar := h
  rw [Char.ofNat, dif_pos hvalid]
  rfl

theorem head_small {c : Char} (h : 0x80 ≤ c.toNat) :
    ∃ d rest, small c = d :: rest ∧ (0x80 ≤ d.toNat ∨ d = 'i' ∨ d = 'k') := by
  unfold small
  rw [if_neg (by omega)]
  split_ifs with hdot
  · exact ⟨'i', _, rfl, Or.inr (Or.inl rfl)⟩
  · split
    · rename_i r hr
      have hholds := List.find?_some hr
      simp only [CapitalRun.holds, Bool.and_eq_true, decide_eq_true_eq] at hholds
      obtain ⟨⟨hfirst, hlast⟩, -⟩ := hholds
      refine ⟨_, [], rfl, ?_⟩
      rcases small_capitalRuns r (List.mem_of_find?_eq_some hr) with ⟨hone, hk⟩ | ⟨hlow, hvalid⟩
      · have hzero : c.toNat - r.first = 0 := by omega
        rw [hk, hzero]
        exact Or.inr (Or.inr rfl)
      · left
        rw [toNat_ofNat (by omega)]
        omega
    · exact ⟨c, [], rfl, Or.inl h⟩

theorem lowerCase_eq_iff {word : List Char}
    (hw : ∀ d ∈ word, d.toNat < 0x80 ∧ d ≠ 'i' ∧ d ≠ 'k') (cs : List Char) :
    lowerCase cs = word ↔ cs.map Char.toLower = word := by
  induction cs generalizing word with
  | nil => exact Iff.rfl
  | cons c cs ih =>
    rw [lowerCase, List.flatMap_cons, List.map_cons]
    by_cases hc : c.toNat < 0x80
    · rw [small_of_ascii hc, List.singleton_append]
      cases word with
      | nil => simp
      | cons d word =>
        rw [List.cons.injEq, List.cons.injEq]
        exact and_congr_right fun _ => ih fun e he => hw e (List.mem_cons_of_mem d he)
    · -- A letter from outside ASCII puts a character into the text that the word does not have.
      obtain ⟨d, rest, hsmall, hd⟩ := head_small (by omega : 0x80 ≤ c.toNat)
      rw [hsmall, toLower_of_not_ascii (by omega)]
      constructor
      · rintro rfl
        obtain ⟨hascii, hi, hk⟩ := hw d (by simp)
        rcases hd with hd | hd | hd
        · omega
        · exact absurd hd hi
        · exact absurd hd hk
      · rintro rfl
        exact absurd (hw c (by simp)).1 hc

end ToolRoster.Text
