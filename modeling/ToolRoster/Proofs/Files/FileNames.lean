import ToolRoster.Proofs.Files.TemporaryNames
import ToolRoster.RegistryFile.Format
/-!
# The file that a path names

The file name of a path is the last of its names, even where slashes follow. A name that tells a
format is no run of dots, so a path with such a name leads to a place of this name.
-/
namespace ToolRoster

namespace SlashPath
open Files (names)

theorem getLast?_names_concat {c : Char} (hc : c ≠ '/') (rev : List Char) :
    (names (rev.reverse ++ [c])).getLast? = some ((rev.takeWhile (· ≠ '/')).reverse ++ [c]) := by
  have hslash : '/' ∉ (rev.takeWhile (· ≠ '/')).reverse ++ [c] := by
    simp only [List.mem_append, List.mem_reverse, List.mem_singleton, not_or]
    exact ⟨Files.slash_notMem_takeWhile rev, Ne.symm hc⟩
  have hname : names ((rev.takeWhile (· ≠ '/')).reverse ++ [c]) =
      [(rev.takeWhile (· ≠ '/')).reverse ++ [c]] :=
    Files.names_of_name hslash (by simp)
  have hsplit : rev.reverse =
      (rev.dropWhile (· ≠ '/')).reverse ++ (rev.takeWhile (· ≠ '/')).reverse := by
    rw [← List.reverse_append, List.takeWhile_append_dropWhile]
  rw [hsplit, List.append_assoc]
  cases hd : rev.dropWhile (· ≠ '/') with
  | nil => rw [List.reverse_nil, List.nil_append, hname, List.getLast?_singleton]
  | cons d before =>
    rw [Files.eq_slash_of_dropWhile hd, List.reverse_cons, List.append_assoc,
      List.singleton_append, Files.names_append, hname, List.getLast?_concat]

theorem fileName?_eq (p : SlashPath) : p.fileName? = (names p.chars).getLast? := by
  suffices hrev : ∀ rev : List Char, fileName? ⟨rev.reverse⟩ = (names rev.reverse).getLast? by
    simpa using hrev p.chars.reverse
  intro rev
  induction rev with
  | nil => rfl
  | cons c rest ih =>
    rw [List.reverse_cons]
    by_cases hc : c = '/'
    · rw [hc, Files.names_append_slash, ← ih]
      simp [fileName?]
    · rw [getLast?_names_concat hc]
      simp [fileName?, hc]

end SlashPath

def Format.ofName? (name : Files.Name) : Option Format :=
  (SlashPath.extensionOf? name).bind ofExtension?

theorem Format.ofPath?_eq (path : SlashPath) : ofPath? path = path.fileName?.bind ofName? := by
  have hnone : ofExtension? [] = none := by decide
  unfold ofPath? SlashPath.extension?
  cases path.fileName? with
  | none => exact hnone
  | some name =>
    simp only [ofName?, Option.bind_some]
    cases SlashPath.extensionOf? name with
    | none => exact hnone
    | some extension => rfl

theorem Format.getLast?_steps {path : SlashPath} {format : Format} (h : ofPath? path = some format) :
    ∃ name, (Files.steps path.chars).getLast? = some (.down name) ∧ ofName? name = some format := by
  rw [ofPath?_eq, SlashPath.fileName?_eq] at h
  obtain ⟨name, hname, hformat⟩ := Option.bind_eq_some_iff.mp h
  have hstay : ofName? ['.'] = none := by decide
  have hup : ofName? ['.', '.'] = none := by decide
  have hdot : name ≠ ['.'] := by
    intro he
    simp [he, hstay] at hformat
  have hdots : name ≠ ['.', '.'] := by
    intro he
    simp [he, hup] at hformat
  refine ⟨name, ?_, hformat⟩
  rw [Files.steps, List.getLast?_map, hname, Option.map_some, Files.Step.of, if_neg hdot,
    if_neg hdots]

end ToolRoster
