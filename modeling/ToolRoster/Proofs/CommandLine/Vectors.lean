import Mathlib.Data.List.Basic
import ToolRoster.CommandLine.Arguments
/-!
# Argument vectors and the commands they ask for

The value of a setting may look like an option and is then none. So a vector of a command word,
letters and values either makes no sense or asks for the command with just these values.
-/
namespace ToolRoster.CommandLine

/-- The arguments ask for a command, whatever they say about the log. -/
def Asks (args : List String) (c : Command) : Prop :=
  ∃ verbose, Request.ofArguments args = .ok (.run ⟨verbose, some c⟩)

def Yields (x : Except Halt Given) (g : Given) : Prop := x = .ok g ∨ ∃ e, x = .error (.usage e)

theorem eq_of_shape_separator {cs : List Char} (h : Shape.of cs = .separator) : cs = ['-', '-'] := by
  unfold Shape.of at h
  split at h <;> first | rfl | contradiction

theorem ne_nil_of_shape_short {cs letters : List Char} (h : Shape.of cs = .short letters) :
    letters ≠ [] := by
  unfold Shape.of at h
  split at h <;> cases h
  simp

section
variable {scope : Scope} {s : Setting} {g g' : Given} {v : String} {as : List String}

theorem readArgument_value (scope : Scope) (g : Given) (s : Setting) (hv : v ≠ "--") :
    (∃ e, readArgument scope ⟨g, some (s, none)⟩ v = .error (.usage e)) ∨
      readArgument scope ⟨g, some (s, none)⟩ v = .ok ⟨g, some (s, some v)⟩ := by
  unfold readArgument
  cases hshape : Shape.of v.toList with
  | separator => exact absurd (String.toList_injective (eq_of_shape_separator hshape)) hv
  | word => exact Or.inr rfl
  | long name value =>
    left
    simp only [readName]
    split
    · exact ⟨_, rfl⟩
    · exact ⟨_, rfl⟩
    · split
      · exact ⟨_, rfl⟩
      · exact ⟨_, rfl⟩
  | short letters =>
    left
    obtain ⟨c, cs, rfl⟩ := List.exists_cons_of_ne_nil (ne_nil_of_shape_short hshape)
    simp only [readLetters]
    split
    · exact ⟨_, rfl⟩
    · exact ⟨_, rfl⟩
    · exact ⟨_, rfl⟩

theorem yields_value (h : Yields (readOptions scope ⟨g, some (s, some v)⟩ as) g') :
    Yields (readOptions scope ⟨g, some (s, none)⟩ (v :: as)) g' := by
  unfold readOptions
  split_ifs with hv
  · cases as with
    | nil => exact Or.inr ⟨_, rfl⟩
    | cons word as => exact Or.inr ⟨_, rfl⟩
  · rcases readArgument_value scope g s hv with ⟨e, he⟩ | hr
    · rw [he]
      exact Or.inr ⟨e, rfl⟩
    · rw [hr]
      exact h

theorem yields_letter {c : Char} (hc : c ≠ '-') (hs : scope.short? c = some (.setting s))
    {r : Reading} (hr : Yields r.settle g) (h : Yields (readOptions scope ⟨g, some (s, none)⟩ as) g') :
    Yields (readOptions scope r (.ofList ['-', c] :: as)) g' := by
  have hne : String.ofList ['-', c] ≠ "--" := by
    intro he
    have := congrArg String.toList he
    rw [String.toList_ofList] at this
    exact hc (List.cons.inj (List.cons.inj this).2).1
  have hshape : Shape.of ['-', c] = .short [c] := by
    unfold Shape.of
    split <;> simp_all
  have hread : readArgument scope r (.ofList ['-', c]) = r.assign s none := by
    simp only [readArgument, String.toList_ofList, hshape, readLetters, hs, attached?]
  rw [readOptions, if_neg hne, hread]
  rcases hr with hr | ⟨e, hr⟩
  · rw [Reading.assign, hr]
    exact h
  · rw [Reading.assign, hr]
    exact Or.inr ⟨e, rfl⟩

theorem yields_registry (hg : g.registry = none) :
    Yields (Reading.settle ⟨g, some (.registry, some v)⟩) { g with registry := some v } := by
  simp only [Reading.settle, Given.set, Given.holds, hg, Option.isSome_none, Bool.false_eq_true,
    if_false]
  split
  · exact Or.inr ⟨_, rfl⟩
  · exact Or.inl rfl

theorem yields_outputDir (hg : g.outputDir = none) :
    Yields (Reading.settle ⟨g, some (.outputDir, some v)⟩) { g with outputDir := some v } := by
  simp only [Reading.settle, Given.set, Given.holds, hg, Option.isSome_none, Bool.false_eq_true,
    if_false]
  split
  · exact Or.inr ⟨_, rfl⟩
  · exact Or.inl rfl

theorem asks_of_yields (scope : Scope) {word : String} {c : Command} (hw : Scope.ofCommand? word = some scope)
    (hy : Yields (readOptions scope {} as) g) (hc : g.command? scope = some c)
    (hok : (Request.ofArguments (word :: as)).isOk) : Asks (word :: as) c := by
  have hread : readProgram {} (word :: as) =
      readOptions scope {} as >>= fun g => .ok ⟨g.verbose, g.command? scope⟩ := by
    simp only [readProgram, hw, Bool.false_or]
  rcases hy with hy | ⟨e, hy⟩
  · refine ⟨g.verbose, ?_⟩
    rw [Request.ofArguments, hread, hy, ← hc]
    rfl
  · rw [Request.ofArguments, hread, hy] at hok
    contradiction

end

section
variable {file : String}

theorem asks_check (h : (Request.ofArguments ["check", "-r", file]).isOk) :
    Asks ["check", "-r", file] (.check (some file)) := by
  refine asks_of_yields .check (g := { registry := some file }) rfl ?_ rfl h
  exact yields_letter (c := 'r') (by decide) rfl (Or.inl rfl) (yields_value (yields_registry rfl))

theorem asks_list (h : (Request.ofArguments ["list", "-r", file]).isOk) :
    Asks ["list", "-r", file] (.list (some file) none) := by
  refine asks_of_yields .list (g := { registry := some file }) rfl ?_ rfl h
  exact yields_letter (c := 'r') (by decide) rfl (Or.inl rfl) (yields_value (yields_registry rfl))

theorem asks_generate {directory : String}
    (h : (Request.ofArguments ["generate", "-r", file, "-o", directory]).isOk) :
    Asks ["generate", "-r", file, "-o", directory] (.generate directory (some file)) := by
  refine asks_of_yields .generate
    (g := { registry := some file, outputDir := some directory }) rfl ?_ rfl h
  have hdirectory : Yields (readOptions .generate
      ⟨{ registry := some file }, some (.outputDir, none)⟩ [directory]) _ :=
    yields_value (yields_outputDir rfl)
  have hfile : Yields (Reading.settle ⟨{}, some (.registry, some file)⟩) _ := yields_registry rfl
  have hletters := yields_letter (c := 'o') (by decide) rfl hfile hdirectory
  exact yields_letter (c := 'r') (by decide) rfl (Or.inl rfl) (yields_value hletters)

end

end ToolRoster.CommandLine
