import ToolRoster.Proofs.Files.Places
/-!
# The way of a path

A path is followed from place to place, and only these places decide where it leads and how it fails.
The way goes on from directories only, so it is the same in all trees with the same directories.
-/
namespace ToolRoster.Files

/-- The places that a walk comes to, from where it starts. It goes on from directories only. -/
def Tree.trail (t : Tree) : Location → List Step → List Location
  | loc, [] => [loc]
  | loc, s :: ss =>
    match t.enter loc, s.target loc with
    | .ok _, .ok next => loc :: t.trail next ss
    | _, _ => [loc]

/-- The places that the system comes to when it follows a path, to its end or to where it fails. -/
def Tree.way (t : Tree) (cwd : Location) (path : List Char) : List Location :=
  match checkPath path with
  | .ok _ => t.trail (start cwd path) (steps path)
  | .error _ => []

namespace Tree
variable {t t' : Tree} {cwd : Location} {path : List Char}

theorem mem_trail_cons {place loc : Location} {s : Step} {ss : List Step} :
    place ∈ t.trail loc (s :: ss) ↔ place = loc ∨
      t.node? loc = some .directory ∧ ∃ next, s.target loc = .ok next ∧ place ∈ t.trail next ss := by
  rw [trail, ← enter_eq_ok_iff]
  cases t.enter loc with
  | error e => simp
  | ok u => cases s.target loc <;> simp

theorem mem_trail_start (loc : Location) (ss : List Step) : loc ∈ t.trail loc ss := by
  cases ss with
  | nil => simp [trail]
  | cons s ss => exact mem_trail_cons.mpr (Or.inl rfl)

theorem mem_trail_of_walk {loc last : Location} {ss : List Step} (h : t.walk loc ss = .ok last) :
    last ∈ t.trail loc ss := by
  induction ss generalizing loc with
  | nil =>
    obtain rfl := Except.ok.inj h
    exact mem_trail_start _ _
  | cons s ss ih =>
    obtain ⟨hd, next, hs, hw⟩ := (walk_cons_eq_ok_iff _ _ _ _ _).mp h
    exact mem_trail_cons.mpr (Or.inr ⟨hd, next, hs, ih hw⟩)

theorem directory_of_mem_trail {loc last place : Location} {ss : List Step}
    (h : t.walk loc ss = .ok last) (hlast : t.node? last = some .directory)
    (hplace : place ∈ t.trail loc ss) : t.node? place = some .directory := by
  induction ss generalizing loc with
  | nil =>
    obtain rfl := Except.ok.inj h
    rwa [List.mem_singleton.mp hplace]
  | cons s ss ih =>
    obtain ⟨hd, next, hs, hw⟩ := (walk_cons_eq_ok_iff _ _ _ _ _).mp h
    rcases mem_trail_cons.mp hplace with rfl | ⟨-, next', hs', hplace⟩
    · exact hd
    · obtain rfl := Except.ok.inj (hs.symm.trans hs')
      exact ih hw hplace

theorem SameDirectories.mem_trail_iff (h : SameDirectories t t') {place loc : Location}
    {ss : List Step} : place ∈ t'.trail loc ss ↔ place ∈ t.trail loc ss := by
  induction ss generalizing loc with
  | nil => rfl
  | cons s ss ih => simp only [mem_trail_cons, h loc, ih]

theorem walk_congr {loc : Location} {ss : List Step}
    (h : ∀ place ∈ t.trail loc ss, t'.node? place = t.node? place) :
    t'.walk loc ss = t.walk loc ss := by
  induction ss generalizing loc with
  | nil => rfl
  | cons s ss ih =>
    rw [walk, walk, enter_congr (h loc (mem_trail_start _ _))]
    cases he : t.enter loc with
    | error e => rfl
    | ok u =>
      cases hs : s.target loc with
      | error e => rfl
      | ok next =>
        have hd := (enter_eq_ok_iff t loc).mp he
        exact ih fun place hplace => h place (mem_trail_cons.mpr (Or.inr ⟨hd, next, hs, hplace⟩))

theorem mem_way_of_locate {place : Location} (h : t.locate cwd path = .ok place) :
    place ∈ t.way cwd path := by
  obtain ⟨u, hcheck, hw⟩ := bind_eq_ok_iff.mp h
  rw [way, hcheck]
  exact mem_trail_of_walk hw

theorem locate_congr (h : ∀ place ∈ t.way cwd path, t'.node? place = t.node? place) :
    t'.locate cwd path = t.locate cwd path := by
  unfold locate
  unfold way at h
  cases hc : checkPath path with
  | error e => rfl
  | ok u =>
    rw [hc] at h
    exact walk_congr h

theorem read_congr_of_way (h : ∀ place ∈ t.way cwd path, t'.node? place = t.node? place) :
    t'.read cwd path = t.read cwd path :=
  read_congr_of_locate (locate_congr h) fun place hplace => h place (mem_way_of_locate hplace)

theorem read_eq_error_of_locate (h : ∀ place, t.locate cwd path ≠ .ok place) :
    ∃ e, t.read cwd path = .error e := by
  cases hr : t.read cwd path with
  | error e => exact ⟨e, rfl⟩
  | ok bytes =>
    obtain ⟨place, hl, -⟩ := bind_eq_ok_iff.mp hr
    exact absurd hl (h place)

end Tree

end ToolRoster.Files
