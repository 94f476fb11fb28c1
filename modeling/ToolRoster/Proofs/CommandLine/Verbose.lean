import ToolRoster.Proofs.CommandLine.Vectors
import ToolRoster.Proofs.Files.Places
/-!
# The verbose switch in front of the arguments

Before the command there can be nothing but switches, and each of them makes the log talkative or
ends the reading. So arguments that ask for a run without the switch start with their command, and
with the switch in front they ask for the same command.
-/
namespace ToolRoster.CommandLine
open Files (bind_eq_ok_iff)

def NoRun {α : Type} (x : Except Halt α) : Prop := ∀ i, x ≠ .error (.shown (.run i))

section
variable {α β : Type}

theorem noRun_ok (a : α) : NoRun (.ok a : Except Halt α) := by simp [NoRun]

theorem noRun_usage (e : UsageError) : NoRun (.error (.usage e) : Except Halt α) := by simp [NoRun]

theorem noRun_mapError (x : Except UsageError α) : NoRun (x.mapError Halt.usage) := by
  cases x with
  | error e => exact noRun_usage e
  | ok a => exact noRun_ok a

theorem NoRun.bind {x : Except Halt α} {f : α → Except Halt β} (h : NoRun x)
    (hf : ∀ a, NoRun (f a)) : NoRun (x >>= f) := by
  cases x with
  | error e => exact fun i hi => h i (congrArg _ (Except.error.inj hi))
  | ok a => exact hf a

theorem noRun_topic (args : List String) : NoRun (.error (readTopic args) : Except Halt α) := by
  unfold readTopic
  split
  · simp [NoRun]
  · split_ifs
    · exact noRun_usage _
    · split
      · exact noRun_usage _
      · split <;> simp [NoRun]

end

section
variable (r : Reading) (scope : Scope)

theorem noRun_settle : NoRun r.settle := by
  unfold Reading.settle
  split
  · exact noRun_ok _
  · exact noRun_usage _
  · exact noRun_mapError _

theorem noRun_flip (long : Bool) (s : Switch) : NoRun (r.flip scope long s) := by
  refine (noRun_settle r).bind fun g => ?_
  cases s with
  | verbose =>
    simp only
    split_ifs
    · exact noRun_usage _
    · exact noRun_ok _
  | help => simp [NoRun]
  | version => simp [NoRun]

theorem noRun_assign (s : Setting) (value : Option (List Char)) : NoRun (r.assign s value) := by
  refine (noRun_settle r).bind fun g => ?_
  cases value with
  | none => exact noRun_ok _
  | some v => exact (noRun_mapError _).bind fun g => noRun_ok _

theorem noRun_letters (letters : List Char) : NoRun (readLetters scope r letters) := by
  induction letters generalizing r with
  | nil => exact noRun_ok r
  | cons c cs ih =>
    unfold readLetters
    split
    · exact noRun_usage _
    · exact (noRun_flip r scope false _).bind ih
    · exact noRun_assign r _ _

theorem noRun_name (name : List Char) (value : Option (List Char)) :
    NoRun (readName scope r name value) := by
  unfold readName
  split
  · exact noRun_usage _
  · exact noRun_assign r _ _
  · split
    · exact noRun_usage _
    · exact noRun_flip r scope true _

theorem noRun_argument (a : String) : NoRun (readArgument scope r a) := by
  unfold readArgument
  split
  · exact noRun_ok r
  · exact noRun_name r scope _ _
  · exact noRun_letters r scope _
  · split
    · exact noRun_ok _
    · exact noRun_usage _

theorem noRun_behind (args : List String) : NoRun (readBehind scope r args) := by
  cases args with
  | nil => exact noRun_settle r
  | cons word args => exact noRun_usage _

theorem noRun_options (args : List String) : NoRun (readOptions scope r args) := by
  induction args generalizing r with
  | nil => exact noRun_settle r
  | cons a as ih =>
    unfold readOptions
    split_ifs
    · exact noRun_behind r scope as
    · exact (noRun_argument r scope a).bind ih

theorem noRun_program (args : List String) : NoRun (readProgram r args) := by
  induction args generalizing r with
  | nil => exact (noRun_settle r).bind fun g => noRun_ok _
  | cons a as ih =>
    unfold readProgram
    split
    · exact (noRun_options {} _ as).bind fun g => noRun_ok _
    · split_ifs
      · exact noRun_topic as
      · exact (noRun_behind r .program as).bind fun g => noRun_ok _
      · exact (noRun_argument r .program a).bind ih

end

theorem readProgram_of_run {args : List String} {i : Invocation}
    (h : Request.ofArguments args = .ok (.run i)) : readProgram {} args = .ok i := by
  unfold Request.ofArguments at h
  split at h
  · rename_i j hj
    cases h
    exact hj
  · rename_i q hq
    cases h
    exact absurd hq (noRun_program {} args i)
  · contradiction

theorem verbose_of_flip {r r' : Reading} {scope : Scope} {long : Bool} {s : Switch}
    (h : r.flip scope long s = .ok r') : r'.given.verbose = true := by
  obtain ⟨g, -, hs⟩ := bind_eq_ok_iff.mp h
  cases s with
  | verbose =>
    simp only at hs
    split_ifs at hs
    cases hs
    rfl
  | help => contradiction
  | version => contradiction

theorem exists_switch {c : Choice} (h : c ∈ Scope.program.choices) : ∃ s, c = .switch s := by
  simp only [Scope.choices, List.mem_cons, List.not_mem_nil, or_false] at h
  rcases h with rfl | rfl | rfl <;> exact ⟨_, rfl⟩

theorem readLetters_program {letters : List Char} {r r' : Reading}
    (h : readLetters .program r letters = .ok r') :
    letters = [] ∧ r' = r ∨ r'.given.verbose = true := by
  induction letters generalizing r with
  | nil =>
    cases h
    exact Or.inl ⟨rfl, rfl⟩
  | cons c cs ih =>
    right
    unfold readLetters at h
    cases hc : Scope.program.short? c with
    | none => simp [hc] at h
    | some choice =>
      obtain ⟨s, rfl⟩ := exists_switch (List.mem_of_find?_eq_some hc)
      simp only [hc] at h
      obtain ⟨next, hf, hrest⟩ := bind_eq_ok_iff.mp h
      rcases ih hrest with ⟨-, rfl⟩ | hv
      · exact verbose_of_flip hf
      · exact hv

theorem readArgument_program {r r' : Reading} {a : String} (h : readArgument .program r a = .ok r') :
    r'.given = r.given ∧ (a = "--" ∨ r.pending ≠ none) ∨ r'.given.verbose = true := by
  unfold readArgument at h
  cases hshape : Shape.of a.toList with
  | separator =>
    rw [hshape] at h
    cases h
    exact Or.inl ⟨rfl, Or.inl (String.toList_injective (eq_of_shape_separator hshape))⟩
  | long name value =>
    right
    simp only [hshape, readName] at h
    cases hc : Scope.program.long? name with
    | none => simp [hc] at h
    | some c =>
      obtain ⟨s, rfl⟩ := exists_switch (List.mem_of_find?_eq_some hc)
      cases value with
      | none =>
        simp only [hc] at h
        exact verbose_of_flip h
      | some v => simp [hc] at h
  | short letters =>
    right
    simp only [hshape] at h
    rcases readLetters_program h with ⟨hnil, -⟩ | hv
    · exact absurd hnil (ne_nil_of_shape_short hshape)
    · exact hv
  | word =>
    left
    simp only [hshape] at h
    split at h
    · rename_i s hp
      cases h
      exact ⟨rfl, Or.inr (by simp [hp])⟩
    · contradiction

theorem verbose_set {g g' : Given} {s : Setting} {value : String} (h : g.set s value = .ok g') :
    g'.verbose = g.verbose := by
  unfold Given.set at h
  by_cases hs : g.holds s
  · rw [if_pos hs] at h
    contradiction
  · rw [if_neg hs] at h
    cases s with
    | outputDir =>
      simp only at h
      split_ifs at h
      cases h
      rfl
    | registry =>
      simp only at h
      split_ifs at h
      cases h
      rfl
    | capability =>
      simp only at h
      split at h
      · cases h
        rfl
      · contradiction

theorem verbose_settle {r : Reading} {g : Given} (h : r.settle = .ok g) :
    g.verbose = r.given.verbose := by
  unfold Reading.settle at h
  split at h
  · cases h
    rfl
  · contradiction
  · rename_i s value _
    cases hset : r.given.set s value with
    | error e =>
      rw [hset] at h
      contradiction
    | ok g' =>
      rw [hset] at h
      cases h
      exact verbose_set hset

theorem verbose_behind {r : Reading} {scope : Scope} {args : List String} {g : Given}
    (h : readBehind scope r args = .ok g) : g.verbose = r.given.verbose := by
  cases args with
  | nil => exact verbose_settle h
  | cons word args => contradiction

theorem verbose_of_readProgram {r : Reading} {args : List String} {i : Invocation}
    (h : readProgram r args = .ok i) (hr : r.given.verbose = true) : i.verbose = true := by
  induction args generalizing r with
  | nil =>
    obtain ⟨g, hg, hi⟩ := bind_eq_ok_iff.mp h
    cases hi
    exact (verbose_settle hg).trans hr
  | cons a as ih =>
    unfold readProgram at h
    cases hs : Scope.ofCommand? a with
    | some scope =>
      simp only [hs] at h
      obtain ⟨g, -, hi⟩ := bind_eq_ok_iff.mp h
      cases hi
      simp [hr]
    | none =>
      simp only [hs] at h
      split_ifs at h
      · obtain ⟨g, hg, hi⟩ := bind_eq_ok_iff.mp h
        cases hi
        exact (verbose_behind hg).trans hr
      · obtain ⟨next, ha, hi⟩ := bind_eq_ok_iff.mp h
        refine ih hi ?_
        rcases readArgument_program ha with ⟨hg, -⟩ | hv
        · rw [hg, hr]
        · exact hv

theorem readProgram_verbose {args : List String} {i : Invocation}
    (h : readProgram {} args = .ok i) (hi : i.verbose = false) :
    readProgram { given := { verbose := true } } args = .ok { i with verbose := true } := by
  cases args with
  | nil =>
    cases h
    rfl
  | cons a as =>
    unfold readProgram at h ⊢
    cases hs : Scope.ofCommand? a with
    | some scope =>
      simp only [hs] at h ⊢
      obtain ⟨g, hg, hgi⟩ := bind_eq_ok_iff.mp h
      cases hgi
      rw [hg]
      rfl
    | none =>
      simp only [hs] at h ⊢
      split_ifs at h ⊢ with _ hdash
      · cases as with
        | nil =>
          cases h
          rfl
        | cons word as => contradiction
      · obtain ⟨next, ha, hnext⟩ := bind_eq_ok_iff.mp h
        have hv : next.given.verbose = true := by
          rcases readArgument_program ha with ⟨-, hsep | hpending⟩ | hv
          · exact absurd hsep hdash
          · exact absurd rfl hpending
          · exact hv
        exact absurd (verbose_of_readProgram hnext hv) (by simp [hi])

theorem ofArguments_verbose {args : List String} {i : Invocation}
    (h : Request.ofArguments args = .ok (.run i)) (hi : i.verbose = false) :
    Request.ofArguments ("-v" :: args) = .ok (.run { i with verbose := true }) := by
  have hv : readProgram {} ("-v" :: args) = readProgram { given := { verbose := true } } args := rfl
  rw [Request.ofArguments, hv, readProgram_verbose (readProgram_of_run h) hi]

end ToolRoster.CommandLine
