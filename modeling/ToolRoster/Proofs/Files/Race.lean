import Mathlib.Logic.Function.Basic
import ToolRoster.Proofs.Files.Replacing
/-!
# Writes that race

Processes write to one target at once, each with its own path to it. Their calls come in any order
and meet any mishaps. At every moment the target is as before or holds one content in full, and when
all have returned, it holds the one that was renamed last.
-/
namespace ToolRoster.Files

/-- A process that writes a file, with the chunks that its content goes in. -/
structure Writer where
  process : Nat
  cwd : Location
  path : SlashPath
  chunks : List ByteArray

namespace Writer

def temporary (w : Writer) : Name := temporaryFor w.process w.path.chars

def content (w : Writer) : ByteArray := joined w.chunks

def session (w : Writer) : Session (Except FileError Unit) :=
  writeChunks w.process w.path w.chunks

def Describes (w : Writer) (p : Phase) : Session (Except FileError Unit) → Prop :=
  p.Describes w.process w.path w.chunks

def Move (w : Writer) : Phase → Tree → Phase → Tree → Prop :=
  Files.Move w.process w.path w.chunks w.cwd

/-- What a writer relies on: nobody touches its temporary file. -/
def Keeps (w : Writer) (p : Phase) : Tree → Prop :=
  p.Keeps w.process w.path w.content w.cwd (fun t => t.Lacks w.temporary)
    fun t => t.Lacks w.temporary ∧ ∃ place, t.place w.cwd w.path.chars = .ok place

variable {w : Writer} {p p' : Phase} {t t' : Tree}

theorem temporary_ne {v w : Writer} (h : v.process ≠ w.process) : v.temporary ≠ w.temporary :=
  fun he => h (eq_of_temporaryName_eq he)

theorem keeps_move (hm : w.Move p t p' t') (h : w.Keeps p t) : w.Keeps p' t' := by
  refine Move.keeps (fun u file hl hp => ?_) (fun u place hl hp => ?_) hm h
  · rw [erase_temporary hl hp]
    exact hl
  · refine ⟨lacks_put_target hl hp _, place, ?_⟩
    exact (Tree.sameDirectories_put u ((Tree.place_eq_ok_iff _ _ _ _).mp hp).2.1 _).place_eq_ok hp

theorem sameDirectories_move (hm : w.Move p t p' t') : t.SameDirectories t' := by
  cases hm with
  | create hp => exact Tree.sameDirectories_put t ((Tree.place_eq_ok_iff _ _ _ _).mp hp).2.1 _
  | append hf => exact Tree.sameDirectories_put t (Tree.not_directory_of_fileAt hf) _
  | rename hf hnew =>
    have herase := Tree.sameDirectories_erase t (Tree.not_directory_of_fileAt hf)
    have hd := ((Tree.place_eq_ok_iff _ _ _ _).mp (herase.place_eq_ok hnew)).2.1
    exact herase.trans (Tree.sameDirectories_put _ hd _)
  | remove e hf => exact Tree.sameDirectories_erase t (Tree.not_directory_of_fileAt hf)
  | _ => exact fun _ => Iff.rfl

theorem node?_move (hm : w.Move p t p' t') {name : Name} (hne : name ≠ w.temporary)
    {outer : Location} (hplace : p = .full → p' = .ended (.ok ()) →
      t.place w.cwd w.path.chars ≠ .ok (name :: outer)) :
    t'.node? (name :: outer) = t.node? (name :: outer) := by
  have hoff : ∀ {file}, t.place w.cwd (Files.temporary w.process w.path.chars) = .ok file →
      name :: outer ≠ file := by
    intro file hp he
    obtain ⟨loc, rfl⟩ := place_temporary hp
    exact hne (List.cons.inj he).1
  cases hm with
  | create hp => exact Tree.node?_put_of_ne t (hoff hp) _
  | append hf => exact Tree.node?_put_of_ne t (hoff ((Tree.fileAt_eq_ok_iff _ _ _ _ _).mp hf).1) _
  | rename hf hnew =>
    have hne' : name :: outer ≠ _ := fun he => hplace rfl rfl (he ▸ hnew)
    rw [Tree.node?_put_of_ne _ hne',
      Tree.node?_erase_of_ne t (hoff ((Tree.fileAt_eq_ok_iff _ _ _ _ _).mp hf).1)]
  | remove e hf =>
    exact Tree.node?_erase_of_ne t (hoff ((Tree.fileAt_eq_ok_iff _ _ _ _ _).mp hf).1)
  | _ => rfl

theorem renamed_move (hm : w.Move .full t (.ended (.ok ())) t') (h : w.Keeps .full t) :
    ∃ place, t.place w.cwd w.path.chars = .ok place ∧ t'.node? place = some (.file w.content) := by
  obtain ⟨file, hf, -⟩ := h
  cases hm with
  | rename hf' hnew =>
    cases hf.symm.trans hf'
    obtain ⟨outer, rfl⟩ := place_target hnew
    exact ⟨_, hnew, Tree.node?_put_self _ (by simp) _⟩

theorem succeeded_move (hm : w.Move p t p' t') :
    p' = .ended (.ok ()) ↔ p = .ended (.ok ()) ∨ (p = .full ∧ p' = .ended (.ok ())) := by
  cases hm <;> simp

theorem Keeps.frame (h : w.Keeps p t) (hsame : t.SameDirectories t')
    (hn : ∀ outer, t'.node? (w.temporary :: outer) = t.node? (w.temporary :: outer)) :
    w.Keeps p t' := by
  have hlacks : t.Lacks w.temporary → t'.Lacks w.temporary :=
    fun hl outer => (hn outer).trans (hl outer)
  have hfile : ∀ {file content},
      t.fileAt w.cwd (Files.temporary w.process w.path.chars) = .ok (file, content) →
        t'.fileAt w.cwd (Files.temporary w.process w.path.chars) = .ok (file, content) := by
    intro file content hf
    obtain ⟨hp, hnode⟩ := (Tree.fileAt_eq_ok_iff _ _ _ _ _).mp hf
    refine (Tree.fileAt_eq_ok_iff _ _ _ _ _).mpr ⟨hsame.place_eq_ok hp, ?_⟩
    obtain ⟨outer, rfl⟩ := place_temporary hp
    exact (hn outer).trans hnode
  have herase : ∀ {file : Location}, (t.erase file).Lacks w.temporary →
      (t'.erase file).Lacks w.temporary := by
    intro file hl outer
    have hnone := hl outer
    rw [Tree.node?_erase] at hnone ⊢
    rw [hn]
    exact hnone
  cases p with
  | fresh => exact hlacks h
  | filling rest =>
    obtain ⟨file, written, hf, hjoin, hl⟩ := h
    exact ⟨file, written, hfile hf, hjoin, herase hl⟩
  | full =>
    obtain ⟨file, hf, hl⟩ := h
    exact ⟨file, hfile hf, herase hl⟩
  | clearing e =>
    obtain ⟨file, written, hf, hl⟩ := h
    exact ⟨file, written, hfile hf, herase hl⟩
  | ended result =>
    cases result with
    | ok u =>
      obtain ⟨hl, place, hp⟩ := h
      exact ⟨hlacks hl, place, hsame.place_eq_ok hp⟩
    | error e => exact ⟨h.1, hlacks h.2⟩

theorem Keeps.lacks_of_ended {result : Except FileError Unit} (h : w.Keeps (.ended result) t) :
    t.Lacks w.temporary := by
  cases result with
  | ok u => exact h.1
  | error e => exact h.2

end Writer

/-- Writes under way on one tree, and whose files have been renamed, the latest first. -/
structure Race (ι : Type) where
  sessions : ι → Session (Except FileError Unit)
  tree : Tree
  renamed : List ι := []

namespace Race
variable {ι : Type} (writers : ι → Writer)

def start (t : Tree) : Race ι where
  sessions i := (writers i).session
  tree := t

def step [DecidableEq ι] (s : Race ι) (turn : ι × Mishap) : Race ι :=
  let (i, mishap) := turn
  let (session, tree) := (s.sessions i).stepAmid (writers i).cwd mishap s.tree
  let renames := (s.sessions i).renamesAmid (writers i).cwd mishap s.tree
  { sessions := Function.update s.sessions i session
    tree
    renamed := if renames then i :: s.renamed else s.renamed }

def run [DecidableEq ι] (s : Race ι) (schedule : List (ι × Mishap)) : Race ι :=
  schedule.foldl (step writers) s

def shown (target : Option Location) (t : Tree) : Option Node := target.bind t.node?

/-- A race may begin: the processes differ, their paths lead to one target, and none of their
temporary names is taken. -/
structure Ready (target : Option Location) (t : Tree) : Prop where
  rooted : t.Rooted
  process : Function.Injective fun i => (writers i).process
  target : ∀ i, (t.locate (writers i).cwd (writers i).path.chars).toOption = target
  lacks : ∀ i, t.Lacks (writers i).temporary

/-- What holds at every moment of a race that began on a tree. -/
structure Holds (target : Option Location) (t : Tree) (s : Race ι) : Prop where
  directories : t.SameDirectories s.tree
  writes : ∀ i, ∃ p, (writers i).Describes p (s.sessions i) ∧ (writers i).Keeps p s.tree ∧
    (i ∈ s.renamed ↔ p = .ended (.ok ()))
  latest : shown target s.tree =
    (s.renamed.head?.map fun i => some (.file (writers i).content)).getD (shown target t)

variable {writers} {target : Option Location} {t : Tree} {s : Race ι}

theorem Ready.target_ne (h : Ready writers target t) (i : ι) (outer : Location) :
    target ≠ some ((writers i).temporary :: outer) := by
  intro he
  have hl : t.locate (writers i).cwd (writers i).path.chars =
      .ok ((writers i).temporary :: outer) := by
    have := (h.target i).trans he
    cases hl : t.locate (writers i).cwd (writers i).path.chars with
    | error e => simp [hl, Except.toOption] at this
    | ok loc => simpa [hl, Except.toOption] using this
  obtain ⟨loc, name, hlast, heq⟩ :=
    h.rooted.locate_eq_cons hl (by simp [h.lacks i outer])
  have hname := lentName_of_getLast? hlast
  rw [← (List.cons.inj heq).1] at hname
  exact temporaryName_ne _ _ hname.symm

theorem Ready.place_eq (h : Ready writers target t) {u : Tree} (hsame : t.SameDirectories u) {i : ι}
    {place : Location} (hp : u.place (writers i).cwd (writers i).path.chars = .ok place) :
    target = some place := by
  rw [← h.target i, Tree.locate_of_place (hsame.symm.place_eq_ok hp)]
  rfl

section
variable (h : Ready writers target t) {i : ι} {p p' : Phase} {u u' : Tree}
include h

theorem Ready.shown_move (hm : (writers i).Move p u p' u')
    (hno : ¬ (p = .full ∧ p' = .ended (.ok ()))) : shown target u' = shown target u := by
  cases target with
  | none => rfl
  | some place =>
    cases place with
    | nil => rfl
    | cons name outer =>
      have hne : name ≠ (writers i).temporary := by
        rintro rfl
        exact h.target_ne i outer rfl
      exact Writer.node?_move hm hne fun hp hp' => absurd ⟨hp, hp'⟩ hno

theorem Ready.shown_renamed (hsame : t.SameDirectories u)
    (hm : (writers i).Move .full u (.ended (.ok ())) u') (hk : (writers i).Keeps .full u) :
    shown target u' = some (.file (writers i).content) := by
  obtain ⟨place, hplace, hnode⟩ := Writer.renamed_move hm hk
  rw [h.place_eq hsame hplace]
  exact hnode

theorem Ready.keeps_of_ne (hsame : t.SameDirectories u) (hm : (writers i).Move p u p' u') {j : ι}
    (hj : j ≠ i) {q : Phase} (hk : (writers j).Keeps q u) : (writers j).Keeps q u' := by
  have hne := Writer.temporary_ne fun he => hj (h.process he)
  refine hk.frame (Writer.sameDirectories_move hm) fun outer => ?_
  refine Writer.node?_move hm hne fun _ _ hplace => ?_
  exact h.target_ne j outer (h.place_eq hsame hplace)

end

theorem holds_start (h : Ready writers target t) : Holds writers target t (start writers t) where
  directories := fun _ => Iff.rfl
  writes := fun i => ⟨.fresh, rfl, h.lacks i, by simp [start]⟩
  latest := rfl

theorem Holds.step [DecidableEq ι] (hf : Ready writers target t) (h : Holds writers target t s)
    (turn : ι × Mishap) : Holds writers target t (s.step writers turn) := by
  obtain ⟨i, mishap⟩ := turn
  obtain ⟨p, hp, hk, hr⟩ := h.writes i
  obtain ⟨p', hp', hm, hren⟩ := Phase.Describes.step hp mishap s.tree
  refine ⟨h.directories.trans (Writer.sameDirectories_move hm), fun j => ?_, ?_⟩
  · -- The writer that moves enters its next phase, every other one stays in its own.
    by_cases hj : j = i
    · subst hj
      refine ⟨p', ?_, Writer.keeps_move hm hk, ?_⟩
      · change (writers j).Describes p' (Function.update s.sessions j _ j)
        rw [Function.update_self]
        exact hp'
      · rw [Writer.succeeded_move hm, ← hr, ← hren]
        simp only [Race.step]
        split_ifs with hrenames <;> simp [hrenames]
    · obtain ⟨q, hq, hkq, hrq⟩ := h.writes j
      refine ⟨q, ?_, hf.keeps_of_ne h.directories hm hj hkq, ?_⟩
      · change (writers j).Describes q (Function.update s.sessions i _ j)
        rw [Function.update_of_ne hj]
        exact hq
      · rw [← hrq]
        simp only [Race.step]
        split_ifs <;> simp [hj]
  · by_cases hrenames : (s.sessions i).renamesAmid (writers i).cwd mishap s.tree = true
    · obtain ⟨rfl, rfl⟩ := hren.mp hrenames
      simp only [Race.step, if_pos hrenames]
      exact hf.shown_renamed h.directories hm hk
    · simp only [Race.step, if_neg hrenames]
      exact (hf.shown_move hm (mt hren.mpr hrenames)).trans h.latest

theorem Holds.run [DecidableEq ι] (hf : Ready writers target t) (h : Holds writers target t s)
    (schedule : List (ι × Mishap)) : Holds writers target t (s.run writers schedule) := by
  induction schedule generalizing s with
  | nil => exact h
  | cons turn schedule ih => exact ih (h.step hf turn)

theorem Holds.mem_renamed_iff (h : Holds writers target t s) (i : ι) :
    i ∈ s.renamed ↔ (s.sessions i).returned? = some (.ok ()) := by
  obtain ⟨p, hp, -, hr⟩ := h.writes i
  rw [hr]
  constructor
  · rintro rfl
    exact hp
  · exact hp.eq_ended

theorem Holds.lacks (h : Holds writers target t s) {i : ι}
    (hi : (s.sessions i).returned?.isSome) : s.tree.Lacks (writers i).temporary := by
  obtain ⟨p, hp, hk, -⟩ := h.writes i
  obtain ⟨result, hresult⟩ := Option.isSome_iff_exists.mp hi
  obtain rfl := hp.eq_ended hresult
  exact hk.lacks_of_ended

theorem Holds.read (hf : Ready writers target t) (h : Holds writers target t s) {i : ι}
    (hi : s.renamed.head? = some i) :
    shown target s.tree = some (.file (writers i).content) ∧
      s.tree.read (writers i).cwd (writers i).path.chars = .ok (writers i).content := by
  have hshown := h.latest
  rw [hi] at hshown
  obtain ⟨p, -, hk, hr⟩ := h.writes i
  obtain rfl := hr.mp (List.mem_of_mem_head? hi)
  obtain ⟨-, place, hplace⟩ := hk
  have hnode : s.tree.node? place = some (.file (writers i).content) := by
    rw [hf.place_eq h.directories hplace] at hshown
    exact hshown
  exact ⟨hshown, Tree.read_of_fileAt ((Tree.fileAt_eq_ok_iff _ _ _ _ _).mpr ⟨hplace, hnode⟩)⟩

/-- At every moment of a race the paths lead where they led, and the target is as before or has the
content of one writer in full. When all writes have returned, no temporary file is left, and if one
has succeeded, the target has the content that was renamed last. -/
theorem target_whole [DecidableEq ι] (hf : Ready writers target t) (schedule : List (ι × Mishap)) :
    let s := (start writers t).run writers schedule
    (∀ i, (s.tree.locate (writers i).cwd (writers i).path.chars).toOption = target) ∧
    (shown target s.tree = shown target t ∨
      ∃ i, shown target s.tree = some (.file (writers i).content)) ∧
    (∀ i, i ∈ s.renamed ↔ (s.sessions i).returned? = some (.ok ())) ∧
    ((∀ i, (s.sessions i).returned?.isSome) →
      (∀ i, s.tree.Lacks (writers i).temporary) ∧
      ((∃ i, (s.sessions i).returned? = some (.ok ())) →
        ∃ i, s.renamed.head? = some i ∧ (s.sessions i).returned? = some (.ok ()) ∧
          shown target s.tree = some (.file (writers i).content) ∧
          s.tree.read (writers i).cwd (writers i).path.chars = .ok (writers i).content)) := by
  intro s
  have h : Holds writers target t s := (holds_start hf).run hf schedule
  refine ⟨fun i => ?_, ?_, h.mem_renamed_iff, fun hall => ⟨fun i => h.lacks (hall i), ?_⟩⟩
  · rw [h.directories.toOption_locate, hf.target i]
  · cases hr : s.renamed.head? with
    | none =>
      left
      simpa [hr] using h.latest
    | some i => exact Or.inr ⟨i, (h.read hf hr).1⟩
  · rintro ⟨i, hi⟩
    have hmem := (h.mem_renamed_iff i).mpr hi
    obtain ⟨j, rest, hj⟩ := List.exists_cons_of_ne_nil (List.ne_nil_of_mem hmem)
    have hj : s.renamed.head? = some j := by rw [hj, List.head?_cons]
    exact ⟨j, hj, (h.mem_renamed_iff j).mp (List.mem_of_mem_head? hj), h.read hf hj⟩

theorem target_whole_of_two :
    let writers : Bool → Writer
      | false => ⟨7, [], .ofString "out/a.txt", ["old".toUTF8, "er".toUTF8]⟩
      | true => ⟨81, ["out".toList], .ofString "./a.txt", ["new".toUTF8]⟩
    let t := Tree.empty.makeDirectory ["out".toList]
    let schedule := [false, false, true, true, true, true, false, false, false].map (·, none)
    let s := (start writers t).run writers schedule
    Ready writers (some ["a.txt".toList, "out".toList]) t ∧
      (∀ i, (s.sessions i).returned?.isSome) ∧ s.renamed = [false, true] ∧
      (∀ i, s.tree.Lacks (writers i).temporary) ∧
      s.tree.read [] (writers false).path.chars = .ok "older".toUTF8 := by
  intro writers t schedule s
  have hready : Ready writers (some ["a.txt".toList, "out".toList]) t := by
    refine ⟨by decide, fun i j hij => ?_, by decide, by decide⟩
    cases i <;> cases j <;> first | rfl | exact absurd hij (by decide)
  have hall : ∀ i, (s.sessions i).returned?.isSome := by decide +kernel
  have hrenamed : s.renamed = [false, true] := by decide +kernel
  -- The race is evaluated by now; opened once more it would be unfolded step by step.
  have hs : s = run writers (start writers t) schedule := rfl
  clear_value s
  have hwhole := target_whole hready schedule
  rw [← hs] at hwhole
  obtain ⟨-, -, hmem, hend⟩ := hwhole
  obtain ⟨hlacks, hlast⟩ := hend hall
  obtain ⟨i, hi, -, -, hread⟩ := hlast ⟨true, (hmem true).mp (by rw [hrenamed]; simp)⟩
  obtain rfl : false = i := by simpa [hrenamed] using hi
  rw [show (writers false).content = "older".toUTF8 by decide +kernel] at hread
  exact ⟨hready, hall, hrenamed, hlacks, hread⟩

end Race
end ToolRoster.Files
