import ToolRoster.Proofs.Text.LetterCase
import ToolRoster.Text.Character
/-!
# Trimming

White space goes from both sides of a text, however much there is, and what stays is not looked into.
Trimming and lowering ASCII letters can change places, since white space has no case.
-/
namespace ToolRoster.Text

def IsBlank (cs : List Char) : Prop := ∀ c ∈ cs, isBlank c

def IsTrimmed (cs : List Char) : Prop :=
  (∀ c ∈ cs.head?, ¬isBlank c) ∧ ∀ c ∈ cs.getLast?, ¬isBlank c

instance (cs : List Char) : Decidable (IsBlank cs) := List.decidableBAll _ _

instance (cs : List Char) : Decidable (IsTrimmed cs) :=
  @instDecidableAnd _ _ cs.head?.decidableForallMem cs.getLast?.decidableForallMem

theorem trimStart_append {before : List Char} (h : IsBlank before) (cs : List Char) :
    trimStart (before ++ cs) = trimStart cs :=
  List.dropWhile_append_of_pos h

theorem trimEnd_append (cs : List Char) {after : List Char} (h : IsBlank after) :
    trimEnd (cs ++ after) = trimEnd cs := by
  have hrev : IsBlank after.reverse := fun c hc => h c (List.mem_reverse.mp hc)
  rw [trimEnd, List.reverse_append, trimStart_append hrev, trimEnd]

theorem exists_trimStart (cs : List Char) : ∃ before, IsBlank before ∧ cs = before ++ trimStart cs :=
  ⟨cs.takeWhile isBlank, fun _ hc => List.all_eq_true.mp List.all_takeWhile _ hc,
    List.takeWhile_append_dropWhile.symm⟩

theorem exists_trimEnd (cs : List Char) : ∃ after, IsBlank after ∧ cs = trimEnd cs ++ after := by
  obtain ⟨before, hblank, hcs⟩ := exists_trimStart cs.reverse
  refine ⟨before.reverse, fun c hc => hblank c (List.mem_reverse.mp hc), ?_⟩
  rw [trimEnd, ← List.reverse_append, ← hcs, List.reverse_reverse]

theorem trimStart_eq_self {cs : List Char} (h : ∀ c ∈ cs.head?, ¬isBlank c) : trimStart cs = cs := by
  cases cs with
  | nil => rfl
  | cons c cs => exact List.dropWhile_cons_of_neg (h c rfl)

theorem trimEnd_eq_self {cs : List Char} (h : ∀ c ∈ cs.getLast?, ¬isBlank c) : trimEnd cs = cs := by
  rw [trimEnd, trimStart_eq_self (by rwa [List.head?_reverse]), List.reverse_reverse]

theorem trim_eq_self {cs : List Char} (h : IsTrimmed cs) : trim cs = cs := by
  rw [trim, trimStart_eq_self h.1, trimEnd_eq_self h.2]

theorem exists_trim (cs : List Char) :
    ∃ before after, IsBlank before ∧ IsBlank after ∧ cs = before ++ trim cs ++ after := by
  obtain ⟨before, hbefore, hstart⟩ := exists_trimStart cs
  obtain ⟨after, hafter, hend⟩ := exists_trimEnd (trimStart cs)
  refine ⟨before, after, hbefore, hafter, ?_⟩
  rw [List.append_assoc, trim, ← hend, ← hstart]

theorem trim_append {before after : List Char} (hbefore : IsBlank before) (hafter : IsBlank after)
    (cs : List Char) : trim (before ++ cs ++ after) = trim cs := by
  rw [trim, List.append_assoc, trimStart_append hbefore]
  by_cases hcs : trimStart cs = []
  · have hblank : IsBlank cs := by
      obtain ⟨start, hstart, heq⟩ := exists_trimStart cs
      rwa [heq, hcs, List.append_nil]
    have hnil : trimStart after = [] := by
      have hdrop := trimStart_append hafter []
      rwa [List.append_nil] at hdrop
    rw [trimStart_append hblank, hnil, trim, hcs]
  · have hstart : trimStart (cs ++ after) = trimStart cs ++ after :=
      List.dropWhile_append.trans (if_neg (mt List.isEmpty_iff.mp hcs))
    rw [hstart, trimEnd_append _ hafter, trim]

theorem isBlank_toLower (c : Char) : isBlank c.toLower = isBlank c := by
  rcases mem_letters_or c with h | h
  · have hletters : ∀ l ∈ letters, isBlank l.1 = false ∧ isBlank l.2 = false := by decide
    rw [(hletters _ h).1, (hletters _ h).2]
  · rw [h]

theorem trim_map_toLower (cs : List Char) :
    trim (cs.map Char.toLower) = (trim cs).map Char.toLower := by
  have hcase : isBlank ∘ Char.toLower = isBlank := funext isBlank_toLower
  have hstart : ∀ ds : List Char, trimStart (ds.map Char.toLower) = (trimStart ds).map Char.toLower := by
    intro ds
    rw [trimStart, List.dropWhile_map, hcase, trimStart]
  rw [trim, hstart, trimEnd, ← List.map_reverse, hstart, ← List.map_reverse, trim, trimEnd]

end ToolRoster.Text
