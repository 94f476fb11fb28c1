import Mathlib.Data.List.Basic
import ToolRoster.Files.Call
import ToolRoster.Proofs.Files.TemporaryNames
/-!
# Places that files come and go at

Directories never change, so a path that leads somewhere leads there in every tree that a program
leaves. What a call does is told by the place of its path alone.
-/
namespace ToolRoster.Files

theorem bind_eq_ok_iff {ε α β : Type} {x : Except ε α} {f : α → Except ε β} {b : β} :
    x >>= f = .ok b ↔ ∃ a, x = .ok a ∧ f a = .ok b := by
  cases x <;> simp [bind, Except.bind]

namespace Tree

theorem node?_nil (t : Tree) : t.node? [] = some .directory := rfl

theorem node?_put_self (t : Tree) {loc : Location} (h : loc ≠ []) (n : Node) :
    (t.put loc n).node? loc = some n := by
  rw [node?_put, if_neg (by simpa using h), if_pos rfl]

theorem node?_put_of_ne (t : Tree) {loc other : Location} (h : other ≠ loc) (n : Node) :
    (t.put loc n).node? other = t.node? other := by
  rw [node?_put, if_neg h]
  split_ifs with he
  · rw [List.isEmpty_iff.mp he, node?_nil]
  · rfl

theorem node?_erase_of_ne (t : Tree) {loc other : Location} (h : other ≠ loc) :
    (t.erase loc).node? other = t.node? other := by
  rw [node?_erase, if_neg h]
  split_ifs with he
  · rw [List.isEmpty_iff.mp he, node?_nil]
  · rfl

theorem node?_erase_self (t : Tree) {loc : Location} (h : loc ≠ []) :
    (t.erase loc).node? loc = none := by
  rw [node?_erase, if_neg (by simpa using h), if_pos rfl]

theorem erase_put (t : Tree) (loc : Location) (n : Node) : (t.put loc n).erase loc = t.erase loc := by
  simp [put, erase]

theorem erase_put_of_ne (t : Tree) {p q : Location} (h : q ≠ p) (n : Node) :
    (t.put q n).erase p = (t.erase p).put q n := by
  have hkeep : decide (q ≠ p) = true := decide_eq_true h
  simp only [put, erase, List.filter_cons, hkeep, if_true, List.filter_filter, Bool.and_comm]

theorem put_congr {t u : Tree} {p : Location} (h : t.erase p = u.erase p) (n : Node) :
    t.put p n = u.put p n := by
  rw [put, put, h]

theorem put_put (t : Tree) (p : Location) (n : Node) : (t.put p n).put p n = t.put p n :=
  put_congr (erase_put t p n) n

theorem put_put_again (t : Tree) {p q : Location} (h : p ≠ q) (m n : Node) :
    (((t.put p m).put q n).put p m).put q n = (t.put p m).put q n := by
  apply put_congr
  rw [erase_put_of_ne _ h, erase_put, erase_put_of_ne _ h, put_put]

theorem erase_of_node?_eq_none {t : Tree} {loc : Location} (h : t.node? loc = none) :
    t.erase loc = t := by
  have hne : loc ≠ [] := by
    rintro rfl
    simp [node?_nil] at h
  rw [node?, if_neg (by simpa using hne), List.lookup_eq_none_iff] at h
  have : t.nodes.filter (fun e => e.1 ≠ loc) = t.nodes := by
    apply List.filter_eq_self.mpr
    intro e he
    exact decide_eq_true (Ne.symm (by simpa using h e he))
  rw [erase, this]

theorem mem_of_node?_ne_none {t : Tree} {name : Name} {outer : Location}
    (h : t.node? (name :: outer) ≠ none) : name :: outer ∈ t.nodes.map Prod.fst := by
  contrapose! h
  apply List.lookup_eq_none_iff.mpr
  intro e he
  rw [bne_iff_ne]
  rintro heq
  exact h (heq ▸ List.mem_map_of_mem he)

def SameDirectories (t t' : Tree) : Prop :=
  ∀ loc, t.node? loc = some .directory ↔ t'.node? loc = some .directory

variable {t t' : Tree} {cwd : Location} {path : List Char}

theorem SameDirectories.symm (h : SameDirectories t t') : SameDirectories t' t :=
  fun loc => (h loc).symm

theorem SameDirectories.trans {u : Tree} (h : SameDirectories t t') (h' : SameDirectories t' u) :
    SameDirectories t u := fun loc => (h loc).trans (h' loc)

theorem sameDirectories_put (t : Tree) {loc : Location} (h : t.node? loc ≠ some .directory)
    (content : ByteArray) : SameDirectories t (t.put loc (.file content)) := by
  intro other
  by_cases he : other = loc
  · subst he
    have hne : other ≠ [] := by
      rintro rfl
      exact h t.node?_nil
    simp [h, node?_put_self t hne]
  · rw [node?_put_of_ne t he]

theorem sameDirectories_erase (t : Tree) {loc : Location} (h : t.node? loc ≠ some .directory) :
    SameDirectories t (t.erase loc) := by
  intro other
  by_cases he : other = loc
  · subst he
    have hne : other ≠ [] := by
      rintro rfl
      exact h t.node?_nil
    simp [h, node?_erase_self t hne]
  · rw [node?_erase_of_ne t he]

theorem enter_eq_ok_iff (t : Tree) (loc : Location) :
    t.enter loc = .ok () ↔ t.node? loc = some .directory := by
  unfold enter
  split <;> simp_all

theorem walk_cons_eq_ok_iff (t : Tree) (loc : Location) (s : Step) (ss : List Step)
    (last : Location) : t.walk loc (s :: ss) = .ok last ↔
      t.node? loc = some .directory ∧ ∃ next, s.target loc = .ok next ∧ t.walk next ss = .ok last := by
  rw [walk, ← enter_eq_ok_iff]
  cases t.enter loc with
  | error e => simp [bind, Except.bind]
  | ok u => cases s.target loc <;> simp [bind, Except.bind]

theorem SameDirectories.walk_eq_ok (h : SameDirectories t t') {loc last : Location}
    {ss : List Step} (hw : t.walk loc ss = .ok last) : t'.walk loc ss = .ok last := by
  induction ss generalizing loc with
  | nil => exact hw
  | cons s ss ih =>
    obtain ⟨hd, next, hs, hw⟩ := (walk_cons_eq_ok_iff _ _ _ _ _).mp hw
    exact (walk_cons_eq_ok_iff _ _ _ _ _).mpr ⟨(h loc).mp hd, next, hs, ih hw⟩

theorem walk_append (t : Tree) (loc : Location) (ss more : List Step) :
    t.walk loc (ss ++ more) = t.walk loc ss >>= fun next => t.walk next more := by
  induction ss generalizing loc with
  | nil => rfl
  | cons s ss ih =>
    rw [List.cons_append, walk, walk]
    cases t.enter loc with
    | error e => rfl
    | ok u =>
      cases s.target loc with
      | error e => rfl
      | ok next => exact ih next

theorem locateLast_eq_ok_iff (t : Tree) (cwd : Location) (path : List Char) (loc : Location)
    (last : Option Step) : t.locateLast cwd path = .ok (loc, last) ↔
      checkPath path = .ok () ∧ t.walk (start cwd path) (steps path).dropLast = .ok loc ∧
        t.node? loc = some .directory ∧ (steps path).getLast? = last := by
  simp only [locateLast, bind_eq_ok_iff, Except.ok.injEq, Prod.mk.injEq, ← enter_eq_ok_iff]
  constructor
  · rintro ⟨⟨⟩, hp, loc', hw, ⟨⟩, hd, rfl, hl⟩
    exact ⟨hp, hw, hd, hl⟩
  · rintro ⟨hp, hw, hd, hl⟩
    exact ⟨(), hp, loc, hw, (), hd, rfl, hl⟩

/-- A path has the place of a file if it leads through directories to a name, if no directory has
that name, and if it is not written as one. -/
theorem place_eq_ok_iff (t : Tree) (cwd : Location) (path : List Char) (file : Location) :
    t.place cwd path = .ok file ↔
      (∃ loc name, t.locateLast cwd path = .ok (loc, some (.down name)) ∧
        (Step.down name).target loc = .ok file) ∧
      t.node? file ≠ some .directory ∧ endsInSlash path = false := by
  unfold place
  rw [bind_eq_ok_iff]
  constructor
  · rintro ⟨⟨loc, last⟩, hl, h⟩
    split at h
    · rename_i name heq
      cases heq
      obtain ⟨place, hp, h⟩ := bind_eq_ok_iff.mp h
      split at h
      · contradiction
      · rename_i hd
        split_ifs at h with hs
        cases h
        exact ⟨⟨loc, name, hl, hp⟩, hd, by simpa using hs⟩
    · contradiction
  · rintro ⟨⟨loc, name, hl, hp⟩, hd, hs⟩
    refine ⟨_, hl, ?_⟩
    simp only [hp, bind, Except.bind, hs]
    split
    · contradiction
    · rfl

theorem target_down_eq {name : Name} {loc next : Location}
    (h : (Step.down name).target loc = .ok next) : next = name :: loc := by
  simp only [Step.target] at h
  split_ifs at h
  exact (Except.ok.inj h).symm

theorem place_eq_cons {file : Location} (h : t.place cwd path = .ok file) :
    ∃ loc name, (steps path).getLast? = some (.down name) ∧ file = name :: loc := by
  obtain ⟨⟨loc, name, hl, hp⟩, -⟩ := (place_eq_ok_iff t cwd path file).mp h
  exact ⟨loc, name, ((locateLast_eq_ok_iff _ _ _ _ _).mp hl).2.2.2, target_down_eq hp⟩

theorem SameDirectories.place_eq_ok (h : SameDirectories t t') {file : Location}
    (hp : t.place cwd path = .ok file) : t'.place cwd path = .ok file := by
  obtain ⟨⟨loc, name, hl, ht⟩, hd, hs⟩ := (place_eq_ok_iff t cwd path file).mp hp
  obtain ⟨hc, hw, hloc, hlast⟩ := (locateLast_eq_ok_iff _ _ _ _ _).mp hl
  have hl' : t'.locateLast cwd path = .ok (loc, some (.down name)) :=
    (locateLast_eq_ok_iff _ _ _ _ _).mpr ⟨hc, h.walk_eq_ok hw, (h loc).mp hloc, hlast⟩
  exact (place_eq_ok_iff _ _ _ _).mpr ⟨⟨loc, name, hl', ht⟩, mt (h file).mpr hd, hs⟩

theorem fileAt_eq_ok_iff (t : Tree) (cwd : Location) (path : List Char) (file : Location)
    (content : ByteArray) : t.fileAt cwd path = .ok (file, content) ↔
      t.place cwd path = .ok file ∧ t.node? file = some (.file content) := by
  unfold fileAt
  rw [bind_eq_ok_iff]
  constructor
  · rintro ⟨place, hp, h⟩
    split at h
    · rename_i hn
      cases h
      exact ⟨hp, hn⟩
    · contradiction
  · rintro ⟨hp, hn⟩
    exact ⟨file, hp, by rw [hn]⟩

theorem fileAt_put {file : Location} (h : t.place cwd path = .ok file) (content : ByteArray) :
    (t.put file (.file content)).fileAt cwd path = .ok (file, content) := by
  obtain ⟨loc, name, -, rfl⟩ := place_eq_cons h
  have hd := ((place_eq_ok_iff _ _ _ _).mp h).2.1
  exact (fileAt_eq_ok_iff _ _ _ _ _).mpr
    ⟨(sameDirectories_put t hd content).place_eq_ok h, node?_put_self t (by simp) _⟩

theorem not_directory_of_fileAt {file : Location} {content : ByteArray}
    (h : t.fileAt cwd path = .ok (file, content)) : t.node? file ≠ some .directory := by
  rw [((fileAt_eq_ok_iff _ _ _ _ _).mp h).2]
  simp

theorem create_eq_ok_iff : t.create cwd path = .ok t' ↔
    ∃ file, t.place cwd path = .ok file ∧ t' = t.put file (.file .empty) := by
  rw [create, bind_eq_ok_iff]
  simp only [Except.ok.injEq, @eq_comm _ _ t']

theorem append_eq_ok_iff {chunk : ByteArray} : t.append cwd path chunk = .ok t' ↔
    ∃ file content, t.fileAt cwd path = .ok (file, content) ∧
      t' = t.put file (.file (content ++ chunk)) := by
  rw [append, bind_eq_ok_iff]
  simp only [Prod.exists, Except.ok.injEq, @eq_comm _ _ t']

theorem remove_eq_ok_iff : t.remove cwd path = .ok t' ↔
    ∃ file content, t.fileAt cwd path = .ok (file, content) ∧ t' = t.erase file := by
  rw [remove, bind_eq_ok_iff]
  simp only [Prod.exists, Except.ok.injEq, @eq_comm _ _ t']

theorem rename_eq_ok_iff {source target : List Char} : t.rename cwd source target = .ok t' ↔
    ∃ file content new, t.fileAt cwd source = .ok (file, content) ∧
      t.place cwd target = .ok new ∧ t' = (t.erase file).put new (.file content) := by
  unfold rename
  simp only [bind_eq_ok_iff, Prod.exists]
  constructor
  · rintro ⟨-, sourceStep, -, loc, targetStep, hl, h⟩
    split at h
    · rename_i name
      obtain ⟨⟨file, content⟩, hf, h⟩ := bind_eq_ok_iff.mp h
      obtain ⟨new, ht, h⟩ := bind_eq_ok_iff.mp h
      split_ifs at h with hs
      split at h
      · contradiction
      · rename_i hd
        cases h
        refine ⟨file, content, new, hf, ?_, rfl⟩
        exact (place_eq_ok_iff _ _ _ _).mpr ⟨⟨loc, name, hl, ht⟩, hd, by simpa using hs⟩
    · contradiction
  · rintro ⟨file, content, new, hf, hp, rfl⟩
    obtain ⟨⟨loc, name, hl, ht⟩, hd, hs⟩ := (place_eq_ok_iff _ _ _ _).mp hp
    obtain ⟨⟨loc', name', hl', -⟩, -⟩ :=
      (place_eq_ok_iff _ _ _ _).mp ((fileAt_eq_ok_iff _ _ _ _ _).mp hf).1
    refine ⟨loc', _, hl', loc, _, hl, ?_⟩
    simp only [hf, ht, hs, bind, Except.bind]
    split
    · contradiction
    · rfl

theorem locate_of_place {file : Location} (h : t.place cwd path = .ok file) :
    t.locate cwd path = .ok file := by
  obtain ⟨⟨loc, name, hl, ht⟩, -⟩ := (place_eq_ok_iff _ _ _ _).mp h
  obtain ⟨hc, hw, hd, hlast⟩ := (locateLast_eq_ok_iff _ _ _ _ _).mp hl
  have hsteps : steps path = (steps path).dropLast ++ [.down name] := by
    rw [List.dropLast_append_getLast? _ hlast]
  rw [locate, hc, hsteps, walk_append, hw]
  refine (walk_cons_eq_ok_iff _ _ _ _ _).mpr ⟨hd, file, ht, rfl⟩

theorem read_of_fileAt {file : Location} {content : ByteArray}
    (h : t.fileAt cwd path = .ok (file, content)) : t.read cwd path = .ok content := by
  obtain ⟨hp, hn⟩ := (fileAt_eq_ok_iff _ _ _ _ _).mp h
  obtain ⟨-, -, hs⟩ := (place_eq_ok_iff _ _ _ _).mp hp
  simp [read, locate_of_place hp, hn, hs, bind, Except.bind]

theorem node?_of_read {bytes : ByteArray} {loc : Location} (hl : t.locate cwd path = .ok loc)
    (hr : t.read cwd path = .ok bytes) : t.node? loc = some (.file bytes) := by
  obtain ⟨loc', hl', h⟩ := bind_eq_ok_iff.mp hr
  obtain rfl := Except.ok.inj (hl.symm.trans hl')
  split at h
  · rename_i hn
    split_ifs at h
    rw [hn, Except.ok.inj h]
  · contradiction
  · contradiction

theorem locate_eq_cons {loc : Location} {name : Name}
    (hlast : (steps path).getLast? = some (.down name)) (hl : t.locate cwd path = .ok loc) :
    ∃ outer, loc = name :: outer := by
  obtain ⟨u, -, hw⟩ := bind_eq_ok_iff.mp hl
  rw [← List.dropLast_append_getLast? _ hlast, walk_append] at hw
  obtain ⟨outer, -, hw⟩ := bind_eq_ok_iff.mp hw
  obtain ⟨-, next, hnext, hw⟩ := (walk_cons_eq_ok_iff _ _ _ _ _).mp hw
  obtain rfl := Except.ok.inj hw
  exact ⟨outer, target_down_eq hnext⟩

/-- Every directory lies in a directory, up to the root. -/
def Rooted (t : Tree) : Prop :=
  ∀ loc, t.node? loc = some .directory → t.node? loc.tail = some .directory

theorem rooted_iff (t : Tree) : t.Rooted ↔ ∀ loc ∈ t.nodes.map Prod.fst,
    t.node? loc = some .directory → t.node? loc.tail = some .directory := by
  constructor
  · exact fun h loc _ => h loc
  · intro h loc hloc
    cases loc with
    | nil => exact hloc
    | cons name outer => exact h _ (mem_of_node?_ne_none (by simp [hloc])) hloc

instance (t : Tree) : Decidable t.Rooted := decidable_of_iff _ t.rooted_iff.symm

theorem Rooted.locate_eq_cons {loc : Location} (h : t.Rooted) (hl : t.locate cwd path = .ok loc)
    (hn : t.node? loc ≠ some .directory) :
    ∃ outer name, (steps path).getLast? = some (.down name) ∧ loc = name :: outer := by
  obtain ⟨u, hp, hw⟩ := bind_eq_ok_iff.mp hl
  rcases List.eq_nil_or_concat (steps path) with hs | ⟨ss, s, hs⟩
  · -- Only a path of slashes has no steps, and it leads to the root.
    have hne : path ≠ [] := by
      rintro rfl
      simp [checkPath] at hp
    rw [hs, start, if_pos (isAbsolute_of_steps_eq_nil hs hne)] at hw
    obtain rfl := Except.ok.inj hw
    exact absurd t.node?_nil hn
  · rw [hs, List.concat_eq_append, walk_append] at hw
    obtain ⟨before, -, hw⟩ := bind_eq_ok_iff.mp hw
    obtain ⟨hd, next, hnext, hw⟩ := (walk_cons_eq_ok_iff _ _ _ _ _).mp hw
    obtain rfl := Except.ok.inj hw
    cases s with
    | stay =>
      cases hnext
      exact absurd hd hn
    | up =>
      cases hnext
      exact absurd (h before hd) hn
    | down name =>
      refine ⟨before, name, ?_, target_down_eq hnext⟩
      rw [hs, List.concat_eq_append, List.getLast?_concat]

theorem SameDirectories.locate_eq_ok (h : SameDirectories t t') {loc : Location}
    (hl : t.locate cwd path = .ok loc) : t'.locate cwd path = .ok loc := by
  obtain ⟨u, hp, hw⟩ := bind_eq_ok_iff.mp hl
  exact bind_eq_ok_iff.mpr ⟨u, hp, h.walk_eq_ok hw⟩

theorem SameDirectories.toOption_locate (h : SameDirectories t t') (cwd : Location)
    (path : List Char) : (t'.locate cwd path).toOption = (t.locate cwd path).toOption := by
  cases hl : t.locate cwd path with
  | ok loc => rw [h.locate_eq_ok hl]
  | error e =>
    cases hl' : t'.locate cwd path with
    | error e' => rfl
    | ok loc => exact absurd (h.symm.locate_eq_ok hl') (by simp [hl])

def AgreeOff (t t' : Tree) (hidden : Location) : Prop :=
  ∀ loc, loc ≠ hidden → t'.node? loc = t.node? loc

theorem agreeOff_put (t : Tree) (loc : Location) (n : Node) : AgreeOff t (t.put loc n) loc :=
  fun _ h => node?_put_of_ne t h n

theorem walk_stays (t : Tree) {loc : Location} (h : t.node? loc = some .directory) (k : Nat)
    (ss : List Step) : t.walk loc (List.replicate k .stay ++ ss) = t.walk loc ss := by
  induction k with
  | zero => rfl
  | succ k ih =>
    rw [List.replicate_succ, List.cons_append, walk, (enter_eq_ok_iff t loc).mpr h]
    exact ih

theorem enter_congr {loc : Location} (h : t'.node? loc = t.node? loc) :
    t'.enter loc = t.enter loc := by
  unfold enter
  rw [h]

theorem walk_stays_congr {loc : Location} (h : t'.node? loc = t.node? loc) (k : Nat) :
    t'.walk loc (List.replicate k .stay) = t.walk loc (List.replicate k .stay) := by
  induction k with
  | zero => rfl
  | succ k ih =>
    rw [List.replicate_succ, walk, walk, enter_congr h]
    exact congrArg _ (funext fun _ => ih)

theorem eq_of_walk_stays {loc last : Location} {k : Nat}
    (h : t.walk loc (List.replicate k .stay) = .ok last) : last = loc := by
  induction k with
  | zero => exact (Except.ok.inj h).symm
  | succ k ih =>
    rw [List.replicate_succ, walk_cons_eq_ok_iff] at h
    obtain ⟨-, next, hnext, hw⟩ := h
    cases hnext
    exact ih hw

theorem read_congr_of_locate (hl : t'.locate cwd path = t.locate cwd path)
    (hn : ∀ loc, t.locate cwd path = .ok loc → t'.node? loc = t.node? loc) :
    t'.read cwd path = t.read cwd path := by
  unfold read
  rw [hl]
  cases h : t.locate cwd path with
  | error e => rfl
  | ok loc =>
    simp only [bind, Except.bind]
    rw [hn loc h]

section
variable {hidden loc : Location} {ss : List Step} (hsame : SameDirectories t t')
  (hw : t.walk (start cwd path) ss = .ok loc) (hloc : t.node? loc = some .directory)
include hsame hw hloc

theorem SameDirectories.read_name (hoff : AgreeOff t t' hidden) {name : Name} {j k : Nat}
    (hs : steps path = ss ++ List.replicate j .stay ++ .down name :: List.replicate k .stay)
    (hne : name :: loc ≠ hidden) : t'.read cwd path = t.read cwd path := by
  have hw' := hsame.walk_eq_ok hw
  have hloc' := (hsame loc).mp hloc
  have hnode := hoff (name :: loc) hne
  have hwalk : ∀ tree : Tree, tree.walk (start cwd path) ss = .ok loc →
      tree.node? loc = some .directory → tree.walk (start cwd path) (steps path) =
        (Step.down name).target loc >>= fun next => tree.walk next (List.replicate k .stay) := by
    intro tree htree hdir
    rw [hs, List.append_assoc, walk_append, htree]
    change tree.walk loc _ = _
    rw [walk_stays tree hdir, walk, (enter_eq_ok_iff tree loc).mpr hdir]
    rfl
  apply read_congr_of_locate
  · unfold locate
    rw [hwalk t hw hloc, hwalk t' hw' hloc']
    cases hn : (Step.down name).target loc with
    | error e => rfl
    | ok next =>
      obtain rfl := target_down_eq hn
      simp only [bind, Except.bind, walk_stays_congr hnode]
  · intro place hplace
    obtain ⟨u, -, h⟩ := bind_eq_ok_iff.mp hplace
    rw [hwalk t hw hloc] at h
    obtain ⟨next, hn, h⟩ := bind_eq_ok_iff.mp h
    obtain rfl := target_down_eq hn
    rw [eq_of_walk_stays h, hnode]

end

end Tree
end ToolRoster.Files
