import Mathlib.Tactic.SplitIfs
import ToolRoster.Json.Record
import ToolRoster.Json.Writer
/-!
# Strings of JSON read back
-/
namespace ToolRoster.Json

/-- A reader takes just this text, whatever follows, and makes this value of it. -/
def Reads {α : Type} (read : Read α) (text : List Char) (a : α) : Prop :=
  ∀ rest, read (text ++ rest) = .ok (a, rest)

theorem hexValue?_digitChar : ∀ d, d < 16 → Text.hexValue? (Nat.digitChar d) = some d := by decide

theorem utf8Size_of_hexValue? {c : Char} {n : Nat} (h : Text.hexValue? c = some n) :
    c.utf8Size = 1 := by
  have hsize : ∀ top : Char, top.val ≤ 127 → c ≤ top → c.utf8Size = 1 := by
    intro top htop hc
    have hle : c.val ≤ 127 := UInt32.le_trans hc htop
    simp [Char.utf8Size, hle]
  simp only [Text.hexValue?, Bool.and_eq_true, decide_eq_true_eq] at h
  split_ifs at h with hdigit hsmall hcapital
  · exact hsize _ (by decide) hdigit.2
  · exact hsize _ (by decide) hsmall.2
  · exact hsize _ (by decide) hcapital.2

theorem readHex4_digits {a b c d : Char} {w x y z : Nat} (ha : Text.hexValue? a = some w)
    (hb : Text.hexValue? b = some x) (hc : Text.hexValue? c = some y)
    (hd : Text.hexValue? d = some z) (rest : List Char) :
    readHex4 (a :: b :: c :: d :: rest) = .ok (((w * 16 + x) * 16 + y) * 16 + z, rest) := by
  simp only [readHex4, List.take_succ_cons, List.take_zero, Text.byteCount,
    utf8Size_of_hexValue? ha, utf8Size_of_hexValue? hb, utf8Size_of_hexValue? hc,
    utf8Size_of_hexValue? hd, ha, hb, hc, hd]
  rfl

theorem readHex4_control {n : Nat} (hn : n < 0x20) (rest : List Char) :
    readHex4 ('0' :: '0' :: Nat.digitChar (n / 16) :: Nat.digitChar (n % 16) :: rest) =
      .ok (n, rest) := by
  have hzero : Text.hexValue? '0' = some 0 := by decide
  have hvalue : ((0 * 16 + 0) * 16 + n / 16) * 16 + n % 16 = n := by omega
  rw [readHex4_digits hzero hzero (hexValue?_digitChar _ (by omega))
    (hexValue?_digitChar _ (by omega)), hvalue]

theorem readEscape_letter {c x : Char} (hx : escapeLetter? c = some x) (rest : List Char) :
    readEscape (c :: rest) = .ok (x, rest) := by
  have hc : c ≠ 'u' := by
    rintro rfl
    exact absurd hx (by simp [escapeLetter?])
  simp [readEscape, hx]

theorem readEscape_control {c : Char} (hc : c.toNat < 0x20) (rest : List Char) :
    readEscape ('u' :: '0' :: '0' :: Nat.digitChar (c.toNat / 16) ::
      Nat.digitChar (c.toNat % 16) :: rest) = .ok (c, rest) := by
  -- A control is half of no surrogate pair, so no second escape is looked for.
  have hlow : ¬ (0xDC00 ≤ c.toNat ∧ c.toNat ≤ 0xDFFF) := by omega
  have hhigh : ¬ (0xD800 ≤ c.toNat ∧ c.toNat ≤ 0xDBFF) := by omega
  simp only [readEscape, readHex4_control hc, bind, Except.bind]
  rw [if_neg (by simpa using hlow), if_neg (by simpa using hhigh), Char.ofNat_toNat]

theorem readChars_backslash {c : Char} {text rest : List Char} (h : readEscape text = .ok (c, rest))
    (fuel : Nat) :
    readChars (fuel + 1) ('\\' :: text) =
      (readChars fuel rest).map fun p => (c :: p.1, p.2) := by
  simp only [readChars, h, bind, Except.bind]
  cases readChars fuel rest <;> rfl

theorem readChars_plain {c : Char} (hq : c ≠ '"') (hb : c ≠ '\\') (hc : ¬ c.toNat < 0x20)
    (fuel : Nat) (rest : List Char) :
    readChars (fuel + 1) (c :: rest) = (readChars fuel rest).map fun p => (c :: p.1, p.2) := by
  simp only [readChars, if_neg hc, bind, Except.bind]
  cases readChars fuel rest <;> rfl

theorem readChars_escape (fuel : Nat) (c : Char) (rest : List Char) :
    readChars (fuel + 1) (escape c ++ rest) =
      (readChars fuel rest).map fun p => (c :: p.1, p.2) := by
  unfold escape
  split_ifs with hself hb hf hn hr ht hcontrol
  · have hletter : escapeLetter? c = some c := by
      rcases (by simpa using hself : c = '"' ∨ c = '\\') with rfl | rfl <;> decide
    exact readChars_backslash (readEscape_letter hletter rest) fuel
  · subst hb
    exact readChars_backslash (readEscape_letter (by decide) rest) fuel
  · subst hf
    exact readChars_backslash (readEscape_letter (by decide) rest) fuel
  · subst hn
    exact readChars_backslash (readEscape_letter (by decide) rest) fuel
  · subst hr
    exact readChars_backslash (readEscape_letter (by decide) rest) fuel
  · subst ht
    exact readChars_backslash (readEscape_letter (by decide) rest) fuel
  · exact readChars_backslash (readEscape_control hcontrol rest) fuel
  · have hplain : c ≠ '"' ∧ c ≠ '\\' := by simpa using hself
    exact readChars_plain hplain.1 hplain.2 hcontrol fuel rest

theorem readChars_flatMap_escape {fuel : Nat} {cs : List Char} (h : cs.length < fuel)
    (rest : List Char) :
    readChars fuel (cs.flatMap escape ++ '"' :: rest) = .ok (cs, rest) := by
  induction cs generalizing fuel with
  | nil =>
    obtain ⟨n, rfl⟩ := Nat.exists_eq_succ_of_ne_zero (Nat.ne_zero_of_lt h)
    rfl
  | cons c cs ih =>
    obtain ⟨n, rfl⟩ := Nat.exists_eq_succ_of_ne_zero (Nat.ne_zero_of_lt h)
    rw [List.flatMap_cons, List.append_assoc, readChars_escape, ih (Nat.lt_of_succ_lt_succ h)]
    rfl

theorem length_le_length_flatMap_escape (cs : List Char) :
    cs.length ≤ (cs.flatMap escape).length := by
  induction cs with
  | nil => exact Nat.le_refl 0
  | cons c cs ih =>
    have hc : 1 ≤ (escape c).length := by
      unfold escape
      split_ifs <;> simp
    rw [List.flatMap_cons, List.length_append, List.length_cons]
    omega

theorem readString_escaped (s : String) (rest : List Char) :
    readString (s.toList.flatMap escape ++ '"' :: rest) = .ok (s, rest) := by
  have hfuel : s.toList.length < (s.toList.flatMap escape ++ '"' :: rest).length + 1 := by
    have hlen := length_le_length_flatMap_escape s.toList
    rw [List.length_append]
    omega
  rw [readString, readChars_flatMap_escape hfuel]
  simp [bind, Except.bind]

theorem writeString_append (s : String) (rest : List Char) :
    writeString s ++ rest = '"' :: (s.toList.flatMap escape ++ '"' :: rest) := by
  simp [writeString]

end ToolRoster.Json
