import ToolRoster.Proofs.Files.Places
import ToolRoster.Proofs.SlashPath.Joining
/-!
# Paths below the working directory

A relative path starts at the working directory. The same path behind the text of the working
directory starts at the root, and the two lead to one place.
-/
namespace ToolRoster.Files

theorem byteCount_append (cs ds : List Char) :
    Text.byteCount (cs ++ ds) = Text.byteCount cs + Text.byteCount ds := by
  induction cs with
  | nil => simp [Text.byteCount]
  | cons c cs ih =>
    rw [List.cons_append, Text.byteCount, Text.byteCount, ih]
    omega

theorem checkPath_of_append {before path : List Char} (hne : path ≠ [])
    (h : checkPath (before ++ path) = .ok ()) : checkPath path = .ok () := by
  unfold checkPath at h ⊢
  rw [byteCount_append] at h
  split_ifs at h with hzero hempty hlong
  rw [if_neg, if_neg (by simpa using hne), if_neg (by omega)]
  simp only [List.contains_iff_mem, List.mem_append, not_or] at hzero ⊢
  exact hzero.2

namespace Tree
variable {t : Tree} {cwd : Location} {directory path : List Char}
  (hdirectory : isAbsolute directory = true) (hcwd : t.locate cwd directory = .ok cwd)
  (hpath : isAbsolute path = false) (hne : path ≠ [])
include hdirectory hcwd hpath hne

theorem locate_of_pushName {loc : Location} (h : t.locate cwd (pushName directory path) = .ok loc) :
    t.locate cwd path = .ok loc := by
  have hdne : directory ≠ [] := by
    rintro rfl
    contradiction
  obtain ⟨before, -, hpush⟩ := exists_pushName hdne
  obtain ⟨u, hcheck, hw⟩ := bind_eq_ok_iff.mp h
  obtain ⟨v, -, hwcwd⟩ := bind_eq_ok_iff.mp hcwd
  rw [steps_pushName, start, isAbsolute_pushName _ _ (by simp [hdne]), if_pos hdirectory,
    walk_append] at hw
  rw [start, if_pos hdirectory] at hwcwd
  rw [hwcwd] at hw
  rw [hpush] at hcheck
  rw [locate, checkPath_of_append hne hcheck, start, hpath]
  exact hw

theorem read_of_pushName {bytes : ByteArray}
    (h : t.read cwd (pushName directory path) = .ok bytes) : t.read cwd path = .ok bytes := by
  have hdne : directory ≠ [] := by
    rintro rfl
    contradiction
  obtain ⟨before, -, hpush⟩ := exists_pushName hdne
  have hend : endsInSlash (pushName directory path) = endsInSlash path := by
    rw [hpush, endsInSlash, endsInSlash, List.getLast?_append_of_ne_nil _ hne]
  obtain ⟨loc, hl, hread⟩ := bind_eq_ok_iff.mp h
  rw [read, locate_of_pushName hdirectory hcwd hpath hne hl, ← hend]
  exact hread

end Tree
end ToolRoster.Files
