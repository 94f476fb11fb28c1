import Mathlib.Data.List.Basic
import ToolRoster.Files.Route
import ToolRoster.Files.Temporary
/-!
# Where a temporary file lies

A temporary path is made from the text of its target, but what counts is where it leads. Step by
step it goes the way of the target and ends beside the target's last name, or below the target where
that lends no name. Two processes never choose one temporary name for a target, and no temporary
name is the target's own.
-/
namespace ToolRoster.Files

theorem splitSlashes_ne_nil (path : List Char) : splitSlashes path ≠ [] := by
  cases path with
  | nil => simp [splitSlashes]
  | cons c cs =>
    rw [splitSlashes]
    split
    · split_ifs <;> simp
    · simp

theorem splitSlashes_slash (path : List Char) :
    splitSlashes ('/' :: path) = [] :: splitSlashes path := by
  rw [splitSlashes]
  split
  · rename_i part parts h
    rw [if_pos rfl, h]
  · exact absurd ‹_› (splitSlashes_ne_nil path)

theorem splitSlashes_append (path rest : List Char) :
    splitSlashes (path ++ '/' :: rest) = splitSlashes path ++ splitSlashes rest := by
  induction path with
  | nil => exact splitSlashes_slash rest
  | cons c cs ih =>
    obtain ⟨part, parts, h⟩ := List.exists_cons_of_ne_nil (splitSlashes_ne_nil cs)
    rw [List.cons_append, splitSlashes, splitSlashes, ih, h]
    simp only [List.cons_append]
    split_ifs <;> rfl

theorem splitSlashes_of_not_mem {name : Name} (h : '/' ∉ name) : splitSlashes name = [name] := by
  induction name with
  | nil => rfl
  | cons c cs ih =>
    obtain ⟨hc, hcs⟩ := not_or.mp (mt List.mem_cons.mpr h)
    rw [splitSlashes, ih hcs]
    simp only [if_neg (Ne.symm hc)]

theorem names_append (path rest : List Char) :
    names (path ++ '/' :: rest) = names path ++ names rest := by
  simp only [names, splitSlashes_append, List.filter_append]

theorem names_append_slash (path : List Char) : names (path ++ ['/']) = names path := by
  rw [names_append, show names [] = [] from rfl, List.append_nil]

theorem names_of_name {name : Name} (h : '/' ∉ name) (hne : name ≠ []) : names name = [name] := by
  simp [names, splitSlashes_of_not_mem h, hne]

theorem steps_append (path rest : List Char) :
    steps (path ++ '/' :: rest) = steps path ++ steps rest := by
  simp only [steps, names_append, List.map_append]

theorem steps_of_name {name : Name} (h : '/' ∉ name) (hne : name ≠ []) :
    steps name = [Step.of name] := by
  rw [steps, names_of_name h hne, List.map_singleton]

@[simp] theorem steps_nil : steps [] = [] := rfl

theorem steps_append_slash (path : List Char) : steps (path ++ ['/']) = steps path := by
  rw [steps_append, steps_nil, List.append_nil]

theorem names_pushName (path rest : List Char) :
    names (pushName path rest) = names path ++ names rest := by
  unfold pushName
  split_ifs with hp
  · rcases List.eq_nil_or_concat path with rfl | ⟨init, c, rfl⟩
    · rfl
    · have hc : c = '/' := by simpa using hp
      rw [List.concat_eq_append, hc, names_append_slash, List.append_assoc, List.singleton_append,
        names_append]
  · exact names_append path rest

theorem steps_pushName (path rest : List Char) :
    steps (pushName path rest) = steps path ++ steps rest := by
  rw [steps, names_pushName, List.map_append, steps, steps]

theorem names_eq_nil_iff {path : List Char} : names path = [] ↔ ∀ c ∈ path, c = '/' := by
  induction path with
  | nil => simp [names, splitSlashes]
  | cons c cs ih =>
    obtain ⟨part, parts, hsplit⟩ := List.exists_cons_of_ne_nil (splitSlashes_ne_nil cs)
    by_cases hc : c = '/'
    · have hrest : names ('/' :: cs) = names cs := by
        rw [names, splitSlashes_slash]
        rfl
      rw [hc, hrest, ih, List.forall_mem_cons, and_iff_right rfl]
    · simp [names, splitSlashes, hsplit, hc]

theorem isAbsolute_of_steps_eq_nil {path : List Char} (h : steps path = []) (hne : path ≠ []) :
    isAbsolute path = true := by
  have hslash := names_eq_nil_iff.mp (List.map_eq_nil_iff.mp h)
  obtain ⟨c, cs, rfl⟩ := List.exists_cons_of_ne_nil hne
  simp [isAbsolute, hslash c]

theorem slash_notMem_takeWhile (cs : List Char) : '/' ∉ cs.takeWhile (· ≠ '/') := by
  intro h
  simpa using List.all_eq_true.mp List.all_takeWhile '/' h

theorem eq_slash_of_dropWhile {cs before : List Char} {c : Char}
    (h : cs.dropWhile (· ≠ '/') = c :: before) : c = '/' := by
  have hhead := List.head?_dropWhile_not (· ≠ '/') cs
  rw [h] at hhead
  simpa using hhead

theorem steps_trimEnd (rev : List Char) :
    ∃ k, steps rev.reverse = steps (trimEnd rev).reverse ++ List.replicate k .stay := by
  induction rev using trimEnd.induct with
  | case1 rev ih =>
    obtain ⟨k, hk⟩ := ih
    refine ⟨k, ?_⟩
    rw [trimEnd, List.reverse_cons, steps_append_slash, hk]
  | case2 rev ih =>
    obtain ⟨k, hk⟩ := ih
    refine ⟨k + 1, ?_⟩
    have hdot : steps ['.'] = [.stay] := rfl
    rw [trimEnd, List.reverse_cons, List.reverse_cons, List.append_assoc, List.singleton_append,
      steps_append, hdot, ← steps_append_slash, ← List.reverse_cons, hk, List.append_assoc,
      List.replicate_succ']
  | case3 rev h₁ h₂ =>
    refine ⟨0, ?_⟩
    rw [trimEnd.eq_3 rev h₁ h₂, List.replicate_zero, List.append_nil]

theorem head?_trimEnd (rev : List Char) : (trimEnd rev).head? ≠ some '/' := by
  induction rev using trimEnd.induct with
  | case1 rev ih => exact ih
  | case2 rev ih => exact ih
  | case3 rev h₁ h₂ =>
    rw [trimEnd.eq_3 rev h₁ h₂]
    cases rev with
    | nil => simp
    | cons c cs =>
      intro hc
      obtain rfl : c = '/' := by simpa using hc
      exact h₁ cs rfl

theorem steps_splitName (path : List Char) :
    ∃ k, steps path =
      steps (splitName path).2.reverse ++ steps (splitName path).1 ++ List.replicate k .stay := by
  obtain ⟨k, hk⟩ := steps_trimEnd path.reverse
  rw [List.reverse_reverse] at hk
  refine ⟨k, ?_⟩
  rw [hk, splitName]
  generalize trimEnd path.reverse = rev
  simp only
  have hrev : rev.reverse =
      (rev.dropWhile (· ≠ '/')).reverse ++ (rev.takeWhile (· ≠ '/')).reverse := by
    rw [← List.reverse_append, List.takeWhile_append_dropWhile]
  cases hd : rev.dropWhile (· ≠ '/') with
  | nil => rw [hrev, hd, List.reverse_nil, List.nil_append, steps_nil, List.nil_append]
  | cons c before =>
    rw [hrev, hd, eq_slash_of_dropWhile hd, List.reverse_cons, steps_append_slash, List.append_assoc,
      List.singleton_append, steps_append]

theorem slash_notMem_name (path : List Char) : '/' ∉ (splitName path).1 :=
  fun h => slash_notMem_takeWhile _ (List.mem_reverse.mp h)

theorem before_eq_nil {path : List Char} (h : (splitName path).1 = []) :
    (splitName path).2 = [] := by
  have hhead := head?_trimEnd path.reverse
  simp only [splitName, List.reverse_eq_nil_iff] at h ⊢
  cases hr : trimEnd path.reverse with
  | nil => rfl
  | cons c rev =>
    rw [hr] at h hhead
    by_cases hc : c = '/'
    · exact absurd (by rw [hc]; rfl) hhead
    · rw [List.takeWhile_cons_of_pos (by simpa using hc)] at h
      exact absurd h (List.cons_ne_nil _ _)

/-- The name that a path lends to its temporary file. -/
def lentName (target : List Char) : Name := ((parentOf target).map Prod.fst).getD []

/-- The directory that a temporary file is put into. -/
def temporaryHome (target : List Char) : List Char :=
  ((parentOf target).map Prod.snd).getD target

def temporaryFor (process : Nat) (target : List Char) : Name :=
  temporaryName (lentName target) process

theorem temporary_eq (process : Nat) (target : List Char) :
    temporary process target = pushName (temporaryHome target) (temporaryFor process target) := by
  unfold temporary temporaryHome temporaryFor lentName
  cases parentOf target <;> rfl

theorem getLast?_append_stays (ss : List Step) (k : Nat) (name : Name)
    (h : (ss ++ List.replicate k Step.stay).getLast? = some (.down name)) :
    k = 0 ∧ ss.getLast? = some (.down name) := by
  cases k with
  | zero => exact ⟨rfl, by simpa using h⟩
  | succ k =>
    rw [List.replicate_succ', ← List.append_assoc, List.getLast?_concat] at h
    simp at h

theorem getLast?_steps_of_parentOf_none {path : List Char} (h : parentOf path = none)
    (name : Name) : (steps path).getLast? ≠ some (.down name) := by
  intro hlast
  obtain ⟨k, hk⟩ := steps_splitName path
  rw [hk] at hlast
  obtain ⟨-, hlast⟩ := getLast?_append_stays _ k name hlast
  have hname : (splitName path).1 = [] ∨ (splitName path).1 = ['.'] ∨
      (splitName path).1 = ['.', '.'] := by
    by_contra hno
    simp only [not_or] at hno
    simp [parentOf, hno] at h
  rcases hname with hname | hname | hname
  · rw [hname, before_eq_nil hname] at hlast
    simp at hlast
  · rw [hname, show steps ['.'] = [.stay] from rfl, List.getLast?_concat] at hlast
    simp at hlast
  · rw [hname, show steps ['.', '.'] = [.up] from rfl, List.getLast?_concat] at hlast
    simp at hlast

/-- A path that lends a name leads to it from the directory of the temporary file, past dots that
stand for directories they are in. -/
theorem steps_of_parentOf_some {path name parent : List Char}
    (h : parentOf path = some (name, parent)) :
    '/' ∉ name ∧ ∃ j k, steps path =
      steps parent ++ List.replicate j .stay ++ .down name :: List.replicate k .stay := by
  obtain ⟨k, hk⟩ := steps_splitName path
  obtain ⟨j, hj⟩ := steps_trimEnd (splitName path).2
  have hslash := slash_notMem_name path
  simp only [parentOf] at h
  split_ifs at h with hdots hroot
  all_goals
    simp only [Bool.or_eq_true, List.isEmpty_iff, decide_eq_true_eq, not_or] at hdots
    obtain ⟨⟨hne, hdot⟩, hdots⟩ := hdots
    obtain ⟨rfl, rfl⟩ := Prod.mk.inj (Option.some.inj h)
    have hname : steps (splitName path).1 = [.down (splitName path).1] := by
      rw [steps_of_name hslash hne, Step.of, if_neg hdot, if_neg hdots]
    refine ⟨hslash, j, k, ?_⟩
    rw [hk, hj, hname, List.append_assoc _ [_], List.singleton_append]
  -- An empty parent of an absolute path is the root.
  rw [Bool.and_eq_true, List.isEmpty_iff] at hroot
  rw [hroot.1]
  rfl

theorem slash_notMem_lentName (path : List Char) : '/' ∉ lentName path := by
  cases h : parentOf path with
  | none => simp [lentName, h]
  | some lent =>
    obtain ⟨name, parent⟩ := lent
    simpa [lentName, h] using (steps_of_parentOf_some h).1

theorem lentName_of_getLast? {path : List Char} {name : Name}
    (h : (steps path).getLast? = some (.down name)) : lentName path = name := by
  cases hp : parentOf path with
  | none => exact absurd h (getLast?_steps_of_parentOf_none hp name)
  | some lent =>
    obtain ⟨own, parent⟩ := lent
    obtain ⟨-, j, k, hsteps⟩ := steps_of_parentOf_some hp
    rw [hsteps, ← List.singleton_append, ← List.append_assoc] at h
    obtain ⟨-, hlast⟩ := getLast?_append_stays _ k name h
    rw [List.getLast?_concat, Option.some.injEq, Step.down.injEq] at hlast
    simpa [lentName, hp] using hlast

theorem length_temporaryName (name : Name) (process : Nat) :
    (temporaryName name process).length = name.length + (Nat.toDigits 10 process).length + 6 := by
  simp [temporaryName]
  omega

theorem temporaryName_ne (name : Name) (process : Nat) : temporaryName name process ≠ name := by
  intro h
  have := congrArg List.length h
  rw [length_temporaryName] at this
  omega

theorem notMem_toDigits {c : Char} (hc : c.isDigit = false) (n : Nat) : c ∉ Nat.toDigits 10 n := by
  intro h
  have hdigit := Nat.isDigit_of_mem_toDigits (by omega) (by omega) h
  exact absurd (hdigit.symm.trans hc) (by simp)

theorem eq_of_temporaryName_eq {name other : Name} {p q : Nat}
    (h : temporaryName name p = temporaryName other q) : p = q := by
  rw [temporaryName, temporaryName, List.append_cancel_right_eq] at h
  -- No digit is a dot, so the digits are what stands behind the last dot.
  have hdigits : ∀ (name : Name) (n : Nat),
      (name ++ '.' :: Nat.toDigits 10 n).reverse.takeWhile (· ≠ '.') =
        (Nat.toDigits 10 n).reverse := by
    intro name n
    rw [List.reverse_append, List.reverse_cons, List.append_assoc, List.singleton_append,
      List.takeWhile_append_of_pos]
    · simp
    · intro c hc
      rw [List.mem_reverse] at hc
      exact decide_eq_true (ne_of_mem_of_not_mem hc (notMem_toDigits rfl n))
  have hrev : (Nat.toDigits 10 p).reverse = (Nat.toDigits 10 q).reverse := by
    rw [← hdigits ('.' :: name) p, ← hdigits ('.' :: other) q, h]
  have hvalue := congrArg (Nat.ofDigitChars 10 · 0) (List.reverse_injective hrev)
  simpa [Nat.ofDigitChars_toDigits] using hvalue

theorem slash_notMem_temporaryFor (process : Nat) (target : List Char) :
    '/' ∉ temporaryFor process target := by
  have hdigits : '/' ∉ Nat.toDigits 10 process := notMem_toDigits rfl process
  simp [temporaryFor, temporaryName, slash_notMem_lentName, hdigits]

theorem stepOf_temporaryFor (process : Nat) (target : List Char) :
    Step.of (temporaryFor process target) = .down (temporaryFor process target) := by
  have hlen := length_temporaryName (lentName target) process
  have hne : ∀ dots : Name, dots.length < 6 → temporaryFor process target ≠ dots := by
    intro dots hdots h
    rw [← h, temporaryFor] at hdots
    omega
  rw [Step.of, if_neg (hne _ (by simp)), if_neg (hne _ (by simp))]

theorem steps_temporary (process : Nat) (target : List Char) :
    steps (temporary process target) =
      steps (temporaryHome target) ++ [.down (temporaryFor process target)] := by
  have hne : temporaryFor process target ≠ [] := by
    simp [temporaryFor, temporaryName]
  rw [temporary_eq, steps_pushName, steps_of_name (slash_notMem_temporaryFor process target) hne,
    stepOf_temporaryFor]

theorem isAbsolute_pushName (path name : List Char) (h : path = [] → isAbsolute name = false) :
    isAbsolute (pushName path name) = isAbsolute path := by
  unfold pushName
  cases path with
  | nil => simpa [isAbsolute] using h rfl
  | cons c cs => split_ifs <;> rfl

theorem trimEnd_suffix (rev : List Char) : trimEnd rev <:+ rev := by
  induction rev using trimEnd.induct with
  | case1 rev ih =>
    rw [trimEnd]
    exact ih.trans (List.suffix_cons _ _)
  | case2 rev ih =>
    rw [trimEnd]
    exact ih.trans (List.suffix_cons _ _)
  | case3 rev h₁ h₂ =>
    exact ⟨[], by rw [List.nil_append, trimEnd.eq_3 rev h₁ h₂]⟩

theorem isAbsolute_of_prefix {path longer : List Char} (h : path <+: longer) (hne : path ≠ []) :
    isAbsolute path = isAbsolute longer := by
  obtain ⟨rest, rfl⟩ := h
  obtain ⟨c, cs, rfl⟩ := List.exists_cons_of_ne_nil hne
  rfl

theorem isAbsolute_parent {path name parent : List Char}
    (h : parentOf path = some (name, parent)) : isAbsolute parent = isAbsolute path := by
  have hprefix : (trimEnd (splitName path).2).reverse <+: path := by
    rw [← List.reverse_suffix, List.reverse_reverse]
    exact (trimEnd_suffix _).trans ((List.dropWhile_suffix _).trans (trimEnd_suffix _))
  simp only [parentOf] at h
  split_ifs at h with hdots hroot
  · obtain ⟨-, rfl⟩ := Prod.mk.inj (Option.some.inj h)
    rw [Bool.and_eq_true] at hroot
    exact hroot.2.symm
  · obtain ⟨-, rfl⟩ := Prod.mk.inj (Option.some.inj h)
    by_cases hne : (trimEnd (splitName path).2).reverse = []
    · rw [hne, List.isEmpty_nil, Bool.true_and, Bool.not_eq_true] at hroot
      rw [hne]
      exact hroot.symm
    · exact isAbsolute_of_prefix hprefix hne

theorem start_temporary (cwd : Location) (process : Nat) (target : List Char) :
    start cwd (temporary process target) = start cwd target := by
  have hname : isAbsolute (temporaryFor process target) = false := rfl
  have hhome : isAbsolute (temporaryHome target) = isAbsolute target := by
    unfold temporaryHome
    cases h : parentOf target with
    | none => rfl
    | some lent =>
      obtain ⟨name, parent⟩ := lent
      exact isAbsolute_parent h
  rw [start, start, temporary_eq, isAbsolute_pushName _ _ fun _ => hname, hhome]

end ToolRoster.Files
