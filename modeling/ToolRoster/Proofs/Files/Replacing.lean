import ToolRoster.Files.Store
import ToolRoster.Proofs.Files.Mishaps
import ToolRoster.Proofs.Files.Places
/-!
# How a file is replaced

The calls of a write, one by one: open the temporary file, append the chunks, sync, rename; or remove
the temporary file after a failure. A phase says how far a write has come, and a move what its next
call may do to the tree. What holds of all moves holds of a write whatever its calls meet.
-/
namespace ToolRoster.Files

def joined (chunks : List ByteArray) : ByteArray := chunks.foldr (· ++ ·) .empty

theorem joined_singleton (content : ByteArray) : joined [content] = content :=
  ByteArray.append_empty

/-- How far a write has come. -/
inductive Phase where
  | fresh
  | filling (rest : List ByteArray)
  | full
  | clearing (e : Refusal)
  | ended (result : Except FileError Unit)

section
variable (process : Nat) (path : SlashPath) (chunks : List ByteArray)

def settle : Reply → Session (Except FileError Unit)
  | .error e => do
    let _ ← Session.call (.remove (temporary process path.chars))
    return .error (.io path e)
  | .ok _ => do
    Session.log (writtenEvent path (chunks.foldl (fun n chunk => n + chunk.size) 0))
    return .ok ()

def Phase.call? : Phase → Option Call
  | fresh => some (.create (temporary process path.chars))
  | filling [] => some (.sync (temporary process path.chars))
  | filling (chunk :: _) => some (.append (temporary process path.chars) chunk)
  | full => some (.rename (temporary process path.chars) path.chars)
  | clearing _ => some (.remove (temporary process path.chars))
  | ended _ => none

def Phase.after : Phase → Reply → Phase
  | fresh, .ok _ => filling chunks
  | fresh, .error e => ended (.error (.io path e))
  | filling [], .ok _ => full
  | filling (_ :: rest), .ok _ => filling rest
  | full, .ok _ => ended (.ok ())
  | filling _, .error e => clearing e
  | full, .error e => clearing e
  | clearing e, _ => ended (.error (.io path e))
  | ended result, _ => ended result

def Phase.Describes : Phase → Session (Except FileError Unit) → Prop
  | fresh, s => s = writeChunks process path chunks
  | filling rest, s =>
    s = complete (temporary process path.chars) path.chars rest >>= settle process path chunks
  | full, s =>
    s = Session.call (.rename (temporary process path.chars) path.chars) >>=
      settle process path chunks
  | clearing e, s => s = settle process path chunks (.error e)
  | ended result, s => s.returned? = some result

end

/-- What the next call of a write may do: the phase and the tree before it and after it. -/
inductive Move (process : Nat) (path : SlashPath) (chunks : List ByteArray) (cwd : Location) :
    Phase → Tree → Phase → Tree → Prop where
  | refuse {t : Tree} (e : Refusal) :
    Move process path chunks cwd .fresh t (.ended (.error (.io path e))) t
  | create {t : Tree} {file : Location}
    (h : t.place cwd (temporary process path.chars) = .ok file) :
    Move process path chunks cwd .fresh t (.filling chunks) (t.put file (.file .empty))
  | append {t : Tree} {file : Location} {content chunk : ByteArray} {rest : List ByteArray}
    (h : t.fileAt cwd (temporary process path.chars) = .ok (file, content)) :
    Move process path chunks cwd (.filling (chunk :: rest)) t (.filling rest)
      (t.put file (.file (content ++ chunk)))
  | sync {t : Tree} : Move process path chunks cwd (.filling []) t .full t
  | failFilling {t : Tree} {rest : List ByteArray} (e : Refusal) :
    Move process path chunks cwd (.filling rest) t (.clearing e) t
  | failFull {t : Tree} (e : Refusal) :
    Move process path chunks cwd .full t (.clearing e) t
  | rename {t : Tree} {file new : Location} {content : ByteArray}
    (h : t.fileAt cwd (temporary process path.chars) = .ok (file, content))
    (hnew : t.place cwd path.chars = .ok new) :
    Move process path chunks cwd .full t (.ended (.ok ())) ((t.erase file).put new (.file content))
  | remove {t : Tree} {file : Location} {content : ByteArray} (e : Refusal)
    (h : t.fileAt cwd (temporary process path.chars) = .ok (file, content)) :
    Move process path chunks cwd (.clearing e) t (.ended (.error (.io path e))) (t.erase file)
  | miss {t : Tree} (e : Refusal)
    (h : ∀ file content, t.fileAt cwd (temporary process path.chars) ≠ .ok (file, content)) :
    Move process path chunks cwd (.clearing e) t (.ended (.error (.io path e))) t
  | rest {t : Tree} (result : Except FileError Unit) :
    Move process path chunks cwd (.ended result) t (.ended result) t

section
variable {process : Nat} {path : SlashPath} {chunks : List ByteArray} {cwd : Location}

theorem bind_call {α β : Type} (c : Call) (rest : Reply → Session α) (f : α → Session β) :
    (Session.call c >>= rest) >>= f = Session.call c >>= fun reply => rest reply >>= f := rfl

theorem complete_cons (temp target : List Char) (chunk : ByteArray) (rest : List ByteArray) :
    complete temp target (chunk :: rest) =
      Session.call (.append temp chunk) >>= fun reply =>
        match reply with
        | .ok _ => complete temp target rest
        | .error e => return .error e := by
  rw [complete, fill, bind_call]
  congr 1
  funext reply
  cases reply <;> rfl

theorem Phase.Describes.eq_call {p : Phase} {s : Session (Except FileError Unit)}
    (hp : p.Describes process path chunks s) {c : Call} (hc : p.call? process path = some c) :
    ∃ rest, s = Session.call c >>= rest ∧
      ∀ reply, (p.after path chunks reply).Describes process path chunks (rest reply) := by
  cases p with
  | fresh =>
    obtain rfl := hp
    cases hc
    refine ⟨_, rfl, fun reply => ?_⟩
    cases reply <;> rfl
  | filling rest =>
    obtain rfl := hp
    cases rest with
    | nil =>
      cases hc
      refine ⟨_, bind_call _ _ _, fun reply => ?_⟩
      cases reply <;> rfl
    | cons chunk rest =>
      cases hc
      rw [complete_cons]
      refine ⟨_, bind_call _ _ _, fun reply => ?_⟩
      cases reply <;> rfl
  | full =>
    obtain rfl := hp
    cases hc
    refine ⟨_, rfl, fun reply => ?_⟩
    cases reply <;> rfl
  | clearing e =>
    obtain rfl := hp
    cases hc
    exact ⟨_, rfl, fun _ => rfl⟩
  | ended result => contradiction

theorem Phase.Describes.eq_ended {p : Phase} {s : Session (Except FileError Unit)}
    (hp : p.Describes process path chunks s) {result : Except FileError Unit}
    (hr : s.returned? = some result) : p = .ended result := by
  cases hc : p.call? process path with
  | some c =>
    obtain ⟨rest, rfl, -⟩ := hp.eq_call hc
    contradiction
  | none =>
    cases p with
    | ended other => rw [Option.some.inj (hp.symm.trans hr)]
    | filling rest => cases rest <;> contradiction
    | _ => contradiction

theorem eq_of_effect_sync {t t' : Tree} {temp : List Char}
    (h : t.effect cwd (.sync temp) = .ok t') : t' = t := by
  simp only [Tree.effect] at h
  cases hc : t.checkFile cwd temp with
  | error e =>
    rw [hc] at h
    contradiction
  | ok u =>
    rw [hc] at h
    exact (Except.ok.inj h).symm

theorem Move.of_answer {p : Phase} {c : Call} (hc : p.call? process path = some c)
    (mishap : Mishap) (t : Tree) :
    Move process path chunks cwd p t (p.after path chunks (t.answerAmid cwd mishap c).1)
      (t.answerAmid cwd mishap c).2 := by
  rcases t.answerAmid_cases cwd mishap c with ⟨e, ha, hmiss⟩ | ⟨bytes, t', ht, ha⟩
  · rw [ha]
    cases p with
    | fresh => exact .refuse e
    | filling rest => cases rest <;> exact .failFilling e
    | full => exact .failFull e
    | clearing e' =>
      cases hc
      refine .miss e' fun file content hfile => ?_
      have hok := Tree.remove_eq_ok_iff.mpr ⟨file, content, hfile, rfl⟩
      exact absurd (hok.symm.trans (hmiss _ rfl)) (by simp)
    | ended result => contradiction
  · rw [ha]
    cases p with
    | fresh =>
      cases hc
      obtain ⟨file, hfile, rfl⟩ := Tree.create_eq_ok_iff.mp ht
      exact .create hfile
    | filling rest =>
      cases rest with
      | nil =>
        cases hc
        obtain rfl := eq_of_effect_sync ht
        exact .sync
      | cons chunk rest =>
        cases hc
        obtain ⟨file, content, hfile, rfl⟩ := Tree.append_eq_ok_iff.mp ht
        exact .append hfile
    | full =>
      cases hc
      obtain ⟨file, content, new, hfile, hnew, rfl⟩ := Tree.rename_eq_ok_iff.mp ht
      exact .rename hfile hnew
    | clearing e =>
      cases hc
      obtain ⟨file, content, hfile, rfl⟩ := Tree.remove_eq_ok_iff.mp ht
      exact .remove e hfile
    | ended result => contradiction

theorem renames_iff {p : Phase} {c : Call} (hc : p.call? process path = some c) (reply : Reply) :
    (c.isRename && reply.isOk) = true ↔ p = .full ∧ p.after path chunks reply = .ended (.ok ()) := by
  cases p with
  | filling rest => cases rest <;> cases hc <;> simp [Call.isRename]
  | full =>
    cases hc
    cases reply <;> simp [Call.isRename, Phase.after, Except.isOk, Except.toBool]
  | ended result => contradiction
  | _ =>
    cases hc
    simp [Call.isRename]

/-- Every step of a write is a move, and it renames when the full file takes the target's place. -/
theorem Phase.Describes.step {p : Phase} {s : Session (Except FileError Unit)}
    (hp : p.Describes process path chunks s) (mishap : Mishap) (t : Tree) :
    ∃ p', p'.Describes process path chunks (s.stepAmid cwd mishap t).1 ∧
      Move process path chunks cwd p t p' (s.stepAmid cwd mishap t).2 ∧
      (s.renamesAmid cwd mishap t = true ↔ p = .full ∧ p' = .ended (.ok ())) := by
  cases hc : p.call? process path with
  | some c =>
    obtain ⟨rest, rfl, hrest⟩ := hp.eq_call hc
    exact ⟨_, hrest _, .of_answer hc mishap t, renames_iff hc _⟩
  | none =>
    cases p with
    | ended result =>
      obtain ⟨hr, ht, hn⟩ := Session.stepAmid_of_returned hp cwd mishap t
      refine ⟨.ended result, hr, ?_, by simp [hn]⟩
      rw [ht]
      exact .rest result
    | filling rest => cases rest <;> contradiction
    | _ => contradiction

/-- No directory has an entry of the name. -/
def Tree.Lacks (t : Tree) (name : Name) : Prop := ∀ outer, t.node? (name :: outer) = none

theorem place_temporary {t : Tree} {file : Location}
    (h : t.place cwd (temporary process path.chars) = .ok file) :
    ∃ outer, file = temporaryFor process path.chars :: outer := by
  obtain ⟨outer, name, hlast, rfl⟩ := Tree.place_eq_cons h
  rw [steps_temporary, List.getLast?_concat, Option.some.injEq, Step.down.injEq] at hlast
  exact ⟨outer, by rw [hlast]⟩

theorem place_target {t : Tree} {place : Location} (h : t.place cwd path.chars = .ok place) :
    ∃ outer, place = lentName path.chars :: outer := by
  obtain ⟨outer, name, hlast, rfl⟩ := Tree.place_eq_cons h
  exact ⟨outer, by rw [lentName_of_getLast? hlast]⟩

theorem Tree.lacks_iff (t : Tree) (name : Name) :
    t.Lacks name ↔ ∀ loc ∈ t.nodes.map Prod.fst, loc.head? ≠ some name := by
  constructor
  · intro h loc hmem hname
    obtain ⟨e, he, rfl⟩ := List.mem_map.mp hmem
    obtain ⟨outer, hloc⟩ : ∃ outer, e.1 = name :: outer := List.head?_eq_some_iff.mp hname
    have hnone := List.lookup_eq_none_iff.mp (h outer) e he
    simp [hloc] at hnone
  · intro h outer
    by_contra hn
    exact h _ (mem_of_node?_ne_none hn) rfl

instance (t : Tree) (name : Name) : Decidable (t.Lacks name) :=
  decidable_of_iff _ (t.lacks_iff name).symm

theorem Tree.Lacks.put {t : Tree} {name : Name} (h : t.Lacks name) {loc : Location} (n : Node)
    (hne : loc.head? ≠ some name) : (t.put loc n).Lacks name := by
  intro outer
  rw [node?_put_of_ne _ _ n]
  · exact h outer
  · rintro rfl
    exact hne rfl

theorem erase_temporary {t : Tree} {file : Location}
    (h : t.Lacks (temporaryFor process path.chars))
    (hp : t.place cwd (temporary process path.chars) = .ok file) : t.erase file = t := by
  obtain ⟨outer, rfl⟩ := place_temporary hp
  exact Tree.erase_of_node?_eq_none (h outer)

theorem lacks_put_target {t : Tree} (h : t.Lacks (temporaryFor process path.chars))
    {place : Location} (hp : t.place cwd path.chars = .ok place) (n : Node) :
    (t.put place n).Lacks (temporaryFor process path.chars) := by
  obtain ⟨outer, rfl⟩ := place_target hp
  apply h.put
  intro he
  exact temporaryName_ne _ _ (Option.some.inj he).symm

/-- What a write keeps. Without the temporary file, of which it knows the content, the tree is clean;
the target is replaced in one go. -/
def Phase.Keeps (process : Nat) (path : SlashPath) (content : ByteArray) (cwd : Location)
    (clean replaced : Tree → Prop) : Phase → Tree → Prop
  | fresh, t => clean t
  | filling rest, t => ∃ file written,
    t.fileAt cwd (temporary process path.chars) = .ok (file, written) ∧
      written ++ joined rest = content ∧ clean (t.erase file)
  | full, t => ∃ file,
    t.fileAt cwd (temporary process path.chars) = .ok (file, content) ∧ clean (t.erase file)
  | clearing _, t => ∃ file written,
    t.fileAt cwd (temporary process path.chars) = .ok (file, written) ∧ clean (t.erase file)
  | ended (.ok ()), t => replaced t
  | ended (.error e), t => (∃ refusal, e = .io path refusal) ∧ clean t

theorem Move.keeps {clean replaced : Tree → Prop}
    (hclean : ∀ t file, clean t → t.place cwd (temporary process path.chars) = .ok file →
      clean (t.erase file))
    (hreplaced : ∀ t place, clean t → t.place cwd path.chars = .ok place →
      replaced (t.put place (.file (joined chunks))))
    {p p' : Phase} {t t' : Tree} (hm : Move process path chunks cwd p t p' t')
    (h : p.Keeps process path (joined chunks) cwd clean replaced t) :
    p'.Keeps process path (joined chunks) cwd clean replaced t' := by
  cases hm with
  | refuse e => exact ⟨⟨e, rfl⟩, h⟩
  | create hp =>
    refine ⟨_, .empty, Tree.fileAt_put hp _, ByteArray.empty_append, ?_⟩
    rw [Tree.erase_put]
    exact hclean _ _ h hp
  | append hf =>
    obtain ⟨file, written, hf', hjoin, hc⟩ := h
    cases hf.symm.trans hf'
    refine ⟨_, _, Tree.fileAt_put ((Tree.fileAt_eq_ok_iff _ _ _ _ _).mp hf).1 _, ?_, ?_⟩
    · rw [ByteArray.append_assoc]
      exact hjoin
    · rw [Tree.erase_put]
      exact hc
  | sync =>
    obtain ⟨file, written, hf, hjoin, hc⟩ := h
    have hw : written = joined chunks := by
      rw [← hjoin]
      exact ByteArray.append_empty.symm
    exact ⟨file, hw ▸ hf, hc⟩
  | failFilling e =>
    obtain ⟨file, written, hf, -, hc⟩ := h
    exact ⟨file, written, hf, hc⟩
  | failFull e =>
    obtain ⟨file, hf, hc⟩ := h
    exact ⟨file, _, hf, hc⟩
  | rename hf hnew =>
    obtain ⟨file, hf', hc⟩ := h
    cases hf.symm.trans hf'
    have hsame := Tree.sameDirectories_erase t (Tree.not_directory_of_fileAt hf)
    exact hreplaced _ _ hc (hsame.place_eq_ok hnew)
  | remove e hf =>
    obtain ⟨file, written, hf', hc⟩ := h
    cases hf.symm.trans hf'
    exact ⟨⟨e, rfl⟩, hc⟩
  | miss e hmiss =>
    obtain ⟨file, written, hf, -⟩ := h
    exact absurd hf (hmiss file written)
  | rest result => exact h

def Tree.Replaced (t : Tree) (cwd : Location) (path : List Char) (content : ByteArray)
    (t' : Tree) : Prop :=
  ∃ place, t.place cwd path = .ok place ∧ t' = t.put place (.file content)

theorem ensures_keeps {clean replaced : Tree → Prop}
    (hclean : ∀ t file, clean t → t.place cwd (temporary process path.chars) = .ok file →
      clean (t.erase file))
    (hreplaced : ∀ t place, clean t → t.place cwd path.chars = .ok place →
      replaced (t.put place (.file (joined chunks))))
    {t : Tree} (h : clean t) :
    (writeChunks process path chunks).Ensures cwd t fun result t' =>
      (result = .ok () ∧ replaced t') ∨ ∃ e, result = .error (.io path e) ∧ clean t' := by
  intro mishaps
  let holds (s : Session (Except FileError Unit)) (t' : Tree) : Prop :=
    ∃ p : Phase, p.Describes process path chunks s ∧
      p.Keeps process path (joined chunks) cwd clean replaced t'
  have hstep : ∀ mishap s t', holds s t' →
      holds (s.stepAmid cwd mishap t').1 (s.stepAmid cwd mishap t').2 := by
    rintro mishap s t' ⟨p, hp, hk⟩
    obtain ⟨p', hp', hm, -⟩ := hp.step mishap t'
    exact ⟨p', hp', hm.keeps hclean hreplaced hk⟩
  obtain ⟨last, hlast, p, hp, hk⟩ := Session.runAmid_keeps hstep mishaps
    (show holds (writeChunks process path chunks) t from ⟨.fresh, rfl, h⟩)
  obtain rfl := hp.eq_ended hlast
  generalize (writeChunks process path chunks).runAmid cwd mishaps t = o at hk ⊢
  cases hr : o.result with
  | ok u =>
    rw [hr] at hk
    exact Or.inl ⟨rfl, hk⟩
  | error e =>
    rw [hr] at hk
    obtain ⟨⟨refusal, rfl⟩, ht⟩ := hk
    exact Or.inr ⟨refusal, rfl, ht⟩

theorem ensures_writeChunks (chunks : List ByteArray) (cwd : Location) {t : Tree}
    (h : t.Lacks (temporaryFor process path.chars)) :
    (writeChunks process path chunks).Ensures cwd t fun result t' =>
      (result = .ok () ∧ t.Replaced cwd path.chars (joined chunks) t') ∨
      ∃ e, result = .error (.io path e) ∧ t' = t := by
  have hclean : ∀ u file, u = t → u.place cwd (temporary process path.chars) = .ok file →
      u.erase file = t := by
    intro u file hu hp
    subst hu
    exact erase_temporary h hp
  refine ensures_keeps hclean (fun u place hu hp => ?_) rfl
  subst hu
  exact ⟨place, hp, rfl⟩

def Tree.AgreeBut (t t' : Tree) (name : Name) : Prop :=
  t.SameDirectories t' ∧ ∀ loc, loc.head? ≠ some name → t'.node? loc = t.node? loc

theorem Tree.AgreeBut.read_eq_ok {t t' : Tree} {name other : Name} (h : t.AgreeBut t' name)
    {target : List Char} (hlast : (steps target).getLast? = some (.down other)) (hne : other ≠ name)
    {bytes : ByteArray} (hr : t.read cwd target = .ok bytes) : t'.read cwd target = .ok bytes := by
  obtain ⟨loc, hl, -⟩ := bind_eq_ok_iff.mp hr
  rw [← hr]
  apply Tree.read_congr_of_locate
  · rw [hl, h.1.locate_eq_ok hl]
  · intro place hplace
    obtain ⟨outer, rfl⟩ := Tree.locate_eq_cons hlast hplace
    apply h.2
    simpa using hne

/-- A tree in which a file may be gone from the place of a path; all else is there. -/
structure Tree.Cleared (t : Tree) (cwd : Location) (path : List Char) (u : Tree) : Prop where
  same : t.SameDirectories u
  kept : ∀ loc, u.node? loc = t.node? loc ∨ t.place cwd path = .ok loc ∧ u.node? loc = none

theorem Tree.Cleared.erase {t u : Tree} {target : List Char} {file : Location}
    (h : t.Cleared cwd target u) (hp : u.place cwd target = .ok file) :
    t.Cleared cwd target (u.erase file) := by
  have hd := ((place_eq_ok_iff _ _ _ _).mp hp).2.1
  refine ⟨h.same.trans (sameDirectories_erase u hd), fun loc => ?_⟩
  by_cases hloc : loc = file
  · subst hloc
    obtain ⟨outer, name, -, rfl⟩ := place_eq_cons hp
    exact Or.inr ⟨h.same.symm.place_eq_ok hp, node?_erase_self u (by simp)⟩
  · rw [node?_erase_of_ne u hloc]
    exact h.kept loc

theorem ensures_replaced (chunks : List ByteArray) (cwd : Location) (t : Tree) :
    (writeChunks process path chunks).Ensures cwd t fun result t' => result = .ok () →
      ∃ base, t.Cleared cwd (temporary process path.chars) base ∧
        base.Replaced cwd path.chars (joined chunks) t' := by
  have hkeeps : (writeChunks process path chunks).Ensures cwd t fun result t' =>
      (result = .ok () ∧ ∃ base, t.Cleared cwd (temporary process path.chars) base ∧
        base.Replaced cwd path.chars (joined chunks) t') ∨
      ∃ e, result = .error (.io path e) ∧ t.Cleared cwd (temporary process path.chars) t' :=
    ensures_keeps (fun u file hu hp => hu.erase hp)
      (fun u place hu hp => ⟨u, hu, place, hp, rfl⟩) ⟨fun _ => Iff.rfl, fun _ => Or.inl rfl⟩
  intro mishaps hok
  rcases hkeeps mishaps with ⟨-, hreplaced⟩ | ⟨e, he, -⟩
  · exact hreplaced
  · exact absurd (hok.symm.trans he) (by simp)

theorem ensures_written (chunks : List ByteArray) (cwd : Location) (t : Tree) :
    (writeChunks process path chunks).Ensures cwd t fun result t' => result = .ok () →
      ∃ base, t.AgreeBut base (temporaryFor process path.chars) ∧
        base.Replaced cwd path.chars (joined chunks) t' := by
  intro mishaps hok
  obtain ⟨base, ⟨hsame, hkept⟩, hreplaced⟩ := ensures_replaced chunks cwd t mishaps hok
  refine ⟨base, ⟨hsame, fun loc hloc => (hkept loc).resolve_right ?_⟩, hreplaced⟩
  rintro ⟨hp, -⟩
  obtain ⟨outer, rfl⟩ := place_temporary hp
  exact hloc rfl

theorem ensures_error_io (chunks : List ByteArray) (cwd : Location) (t : Tree) :
    (writeChunks process path chunks).Ensures cwd t fun result _ =>
      ∀ e, result = .error e → ∃ refusal, e = .io path refusal := by
  have hcreate : (Session.call (.create (temporary process path.chars))).Ensures cwd t
    fun _ _ => True := fun _ => trivial
  refine hcreate.bind fun reply t' _ => ?_
  cases reply with
  | error refusal => exact fun _ e he => ⟨refusal, (Except.error.inj he).symm⟩
  | ok bytes =>
    have hcomplete : (complete (temporary process path.chars) path.chars chunks).Ensures cwd t'
      fun _ _ => True := fun _ => trivial
    refine hcomplete.bind fun reply t'' _ => ?_
    cases reply with
    | error refusal => exact fun _ e he => ⟨refusal, (Except.error.inj he).symm⟩
    | ok bytes => exact fun _ e he => by contradiction

section
variable {t t' : Tree} {content : ByteArray} (h : t.Replaced cwd path.chars content t')
include h

theorem Tree.Replaced.sameDirectories : t.SameDirectories t' := by
  obtain ⟨place, hp, rfl⟩ := h
  exact sameDirectories_put t ((place_eq_ok_iff _ _ _ _).mp hp).2.1 content

theorem Tree.Replaced.read : t'.read cwd path.chars = .ok content := by
  obtain ⟨place, hp, rfl⟩ := h
  exact read_of_fileAt (fileAt_put hp content)

theorem Tree.Replaced.lacks (hl : t.Lacks (temporaryFor process path.chars)) :
    t'.Lacks (temporaryFor process path.chars) := by
  obtain ⟨place, hp, rfl⟩ := h
  exact lacks_put_target hl hp _

theorem Tree.Replaced.node? : ∃ place, t.locate cwd path.chars = .ok place ∧
    t'.node? place = some (.file content) ∧
    ∀ other, other ≠ place → t'.node? other = t.node? other := by
  obtain ⟨place, hp, rfl⟩ := h
  obtain ⟨-, hn⟩ := (fileAt_eq_ok_iff _ _ _ _ _).mp (fileAt_put hp content)
  exact ⟨place, locate_of_place hp, hn, fun other hne => node?_put_of_ne t hne _⟩

end

/-- A write has two outcomes. It succeeds, and then the target is a file of exactly the content and
all else is as before; or it fails with an error that names the target, and then nothing has changed.
Neither leaves a temporary file. -/
theorem writeBytes_all_or_nothing (process : Nat) (path : SlashPath) (content : ByteArray)
    (cwd : Location) (mishaps : List Mishap) {t : Tree}
    (h : t.Lacks (temporaryFor process path.chars)) :
    let o := (writeBytes process path content).runAmid cwd mishaps t
    ((o.result = .ok () ∧ o.tree.read cwd path.chars = .ok content ∧
        ∃ place, t.locate cwd path.chars = .ok place ∧
          o.tree.node? place = some (.file content) ∧
          ∀ other, other ≠ place → o.tree.node? other = t.node? other) ∨
      ∃ e, o.result = .error (.io path e) ∧ o.tree = t) ∧
    o.tree.Lacks (temporaryFor process path.chars) := by
  intro o
  rcases ensures_writeChunks [content] cwd h mishaps with ⟨hr, hreplaced⟩ | ⟨e, hr, ht⟩
  · rw [joined_singleton] at hreplaced
    exact ⟨Or.inl ⟨hr, hreplaced.read, hreplaced.node?⟩, hreplaced.lacks h⟩
  · refine ⟨Or.inr ⟨e, hr, ht⟩, ?_⟩
    rw [show o.tree = t from ht]
    exact h

theorem writeBytes_all_or_nothing_full_disk :
    let path := SlashPath.ofString "out/./a.txt"
    let t := (Tree.empty.makeDirectory ["out".toList]).put ["a.txt".toList, "out".toList]
      (.file "old".toUTF8)
    let full : Refusal := .other "No space left on device (os error 28)"
    let first := (writeBytes 7 path "new".toUTF8).runAmid [] [none, none, some full] t
    let second := (writeBytes 7 path "new".toUTF8).runAmid [] [] t
    t.Lacks (temporaryFor 7 path.chars) ∧
      (first.result = .error (.io path full) ∧ first.tree = t) ∧
      second.result = .ok () ∧ second.tree.read [] path.chars = .ok "new".toUTF8 := by
  intro path t full first second
  have hl : t.Lacks (temporaryFor 7 path.chars) := by decide
  have hfirst : first.result = .error (.io path full) := by decide +kernel
  have hsecond : second.result = .ok () := by decide +kernel
  refine ⟨hl, ⟨hfirst, ?_⟩, hsecond, ?_⟩
  · rcases (writeBytes_all_or_nothing 7 path "new".toUTF8 [] [none, none, some full] hl).1 with
      ⟨hr, -⟩ | ⟨e, -, ht⟩
    · exact absurd (hfirst.symm.trans hr) (by simp)
    · exact ht
  · rcases (writeBytes_all_or_nothing 7 path "new".toUTF8 [] [] hl).1 with
      ⟨-, hread, -⟩ | ⟨e, hr, -⟩
    · exact hread
    · exact absurd (hsecond.symm.trans hr) (by simp)

end

end ToolRoster.Files
