import Mathlib.Data.List.Basic
/-!
# Lines of a text

A line feed ends a line, and what follows the last one is a line only if there is something. Lines
without a line feed of their own are read back from the text that they make up.
-/
namespace ToolRoster.Text

abbrev Line := List Char

def lines : List Char → List Line
  | [] => []
  | c :: cs =>
    if c = '\n' then [] :: lines cs
    else
      match lines cs with
      | [] => [[c]]
      | l :: ls => (c :: l) :: ls

def unlines (ls : List Line) : List Char := ls.flatMap fun l => l ++ ['\n']

theorem unlines_cons (l : Line) (ls : List Line) : unlines (l :: ls) = l ++ '\n' :: unlines ls := by
  simp [unlines]

theorem unlines_append (ls more : List Line) : unlines (ls ++ more) = unlines ls ++ unlines more :=
  List.flatMap_append

theorem unlines_flatMap {α : Type} (xs : List α) (f : α → List Line) :
    unlines (xs.flatMap f) = xs.flatMap fun x => unlines (f x) :=
  List.flatMap_assoc

theorem length_lines (l : Line) : (lines (l ++ ['\n'])).length = l.count '\n' + 1 := by
  induction l with
  | nil => simp [lines]
  | cons c cs ih =>
    rw [List.cons_append, lines, List.count_cons]
    by_cases hc : c = '\n'
    · simp [hc, ih]
    · rw [if_neg hc]
      cases hl : lines (cs ++ ['\n']) with
      | nil => simp [hl] at ih
      | cons l ls =>
        rw [hl] at ih
        simpa [hc] using ih

theorem lines_append (cs rest : List Char) :
    lines (cs ++ '\n' :: rest) = lines (cs ++ ['\n']) ++ lines rest := by
  induction cs with
  | nil => simp [lines]
  | cons c cs ih =>
    rw [List.cons_append, List.cons_append, lines, lines, ih]
    by_cases hc : c = '\n'
    · simp [hc]
    · rw [if_neg hc, if_neg hc]
      -- A line is under way, since there is at least a line feed to come.
      have hne : lines (cs ++ ['\n']) ≠ [] := by
        rw [← List.length_pos_iff, length_lines]
        omega
      obtain ⟨l, ls, hl⟩ := List.exists_cons_of_ne_nil hne
      simp [hl]

theorem lines_unlines (ls : List Line) : lines (unlines ls) = ls.flatMap fun l => lines (l ++ ['\n']) := by
  induction ls with
  | nil => rfl
  | cons l ls ih => rw [unlines_cons, lines_append, ih, List.flatMap_cons]

theorem lines_of_notMem {l : Line} (h : '\n' ∉ l) : lines (l ++ ['\n']) = [l] := by
  induction l with
  | nil => simp [lines]
  | cons c cs ih =>
    obtain ⟨hc, hcs⟩ := not_or.mp (mt List.mem_cons.mpr h)
    rw [List.cons_append, lines, if_neg (Ne.symm hc), ih hcs]

theorem lines_unlines_of_notMem {ls : List Line} (h : ∀ l ∈ ls, '\n' ∉ l) :
    lines (unlines ls) = ls := by
  rw [lines_unlines, List.flatMap_congr fun l hl => lines_of_notMem (h l hl),
    List.flatMap_singleton']

theorem length_le_length_lines (ls : List Line) : ls.length ≤ (lines (unlines ls)).length := by
  induction ls with
  | nil => simp
  | cons l ls ih =>
    rw [unlines_cons, lines_append, List.length_append, length_lines, List.length_cons]
    omega

theorem notMem_of_length_lines_le {ls : List Line} (h : (lines (unlines ls)).length ≤ ls.length) :
    ∀ l ∈ ls, '\n' ∉ l := by
  induction ls with
  | nil => simp
  | cons l ls ih =>
    have hrest := length_le_length_lines ls
    rw [unlines_cons, lines_append, List.length_append, length_lines, List.length_cons] at h
    exact List.forall_mem_cons.mpr ⟨List.count_eq_zero.mp (by omega), ih (by omega)⟩

def framed (opening text closing : String) : Line := opening.toList ++ text.toList ++ closing.toList

theorem toList_framed (opening text : String) {closing ended : String} {ending : List Char}
    (h : ended.toList = closing.toList ++ ending) :
    (opening ++ text ++ ended).toList = framed opening text closing ++ ending := by
  simp [framed, h]

theorem notMem_framed_iff {c : Char} {opening closing : String} (ho : c ∉ opening.toList)
    (hc : c ∉ closing.toList) (text : String) :
    c ∉ framed opening text closing ↔ c ∉ text.toList := by
  simp [framed, ho, hc]

end ToolRoster.Text
