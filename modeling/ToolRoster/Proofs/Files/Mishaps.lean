import ToolRoster.Files.Session
/-!
# Sessions amid mishaps

A tree refuses what it has a reason to refuse. A system may refuse more: the disk is full, the
directory may not be written. What a program promises it promises amid such mishaps too, so a session
runs here with a list of them, and an empty list is the run on the tree alone.
-/
namespace ToolRoster

namespace Files

/-- What goes wrong at a call: nothing, or a refusal that the tree gives no reason for. -/
abbrev Mishap := Option Refusal

def Call.isRename : Call → Bool
  | .rename _ _ => true
  | _ => false

def Tree.effect (t : Tree) (cwd : Location) : Call → Except Refusal Tree
  | .read path => (fun _ => t) <$> t.read cwd path
  | .create path => t.create cwd path
  | .append path chunk => t.append cwd path chunk
  | .sync path => (fun _ => t) <$> t.checkFile cwd path
  | .rename source target => t.rename cwd source target
  | .remove path => t.remove cwd path

/-- Answers a call that may be refused without a reason. Such a call changes nothing. A file that
can be removed always is. -/
def Tree.answerAmid (t : Tree) (cwd : Location) (mishap : Mishap) (c : Call) : Reply × Tree :=
  match mishap, c with
  | none, c => t.answer cwd c
  | some _, .remove path => t.answer cwd (.remove path)
  | some e, _ => (.error e, t)

theorem Tree.answer_cases (t : Tree) (cwd : Location) (c : Call) :
    (∃ e, t.effect cwd c = .error e ∧ t.answer cwd c = (.error e, t)) ∨
    ∃ bytes t', t.effect cwd c = .ok t' ∧ t.answer cwd c = (.ok bytes, t') := by
  cases c with
  | read path =>
    simp only [effect, answer]
    cases t.read cwd path with
    | error e => exact Or.inl ⟨e, rfl, rfl⟩
    | ok bytes => exact Or.inr ⟨bytes, t, rfl, rfl⟩
  | sync path =>
    simp only [effect, answer]
    cases t.checkFile cwd path with
    | error e => exact Or.inl ⟨e, rfl, rfl⟩
    | ok u => exact Or.inr ⟨.empty, t, rfl, rfl⟩
  | _ =>
    simp only [effect, answer]
    split
    · rename_i t' h
      exact Or.inr ⟨.empty, t', h, rfl⟩
    · rename_i e h
      exact Or.inl ⟨e, h, rfl⟩

theorem Tree.answerAmid_cases (t : Tree) (cwd : Location) (mishap : Mishap) (c : Call) :
    (∃ e, t.answerAmid cwd mishap c = (.error e, t) ∧
      ∀ path, c = .remove path → t.effect cwd c = .error e) ∨
    ∃ bytes t', t.effect cwd c = .ok t' ∧ t.answerAmid cwd mishap c = (.ok bytes, t') := by
  have hanswer : (∃ e, t.answer cwd c = (.error e, t) ∧
      ∀ path, c = .remove path → t.effect cwd c = .error e) ∨
      ∃ bytes t', t.effect cwd c = .ok t' ∧ t.answer cwd c = (.ok bytes, t') := by
    rcases t.answer_cases cwd c with ⟨e, he, ha⟩ | h
    · exact Or.inl ⟨e, ha, fun _ _ => he⟩
    · exact Or.inr h
  cases mishap with
  | none => exact hanswer
  | some e =>
    cases c with
    | remove path => exact hanswer
    | _ => exact Or.inl ⟨e, rfl, fun _ h => by contradiction⟩

end Files

namespace Session
open Files (Mishap)

variable {α β : Type}

def stepAmid (cwd : Files.Location) (mishap : Mishap) :
    Session α → Files.Tree → Session α × Files.Tree
  | done a, t => (done a, t)
  | tell _ rest, t => rest.stepAmid cwd mishap t
  | ask c rest, t =>
    let (reply, t') := t.answerAmid cwd mishap c
    (rest reply, t')

def renamesAmid (cwd : Files.Location) (mishap : Mishap) : Session α → Files.Tree → Bool
  | done _, _ => false
  | tell _ rest, t => rest.renamesAmid cwd mishap t
  | ask c _, t => c.isRename && (t.answerAmid cwd mishap c).1.isOk

/-- A run in which the calls meet the mishaps of the list, one each, and none after its end. -/
def runAmid (cwd : Files.Location) : Session α → List Mishap → Files.Tree → Outcome α
  | done a, _, t => ⟨a, t, []⟩
  | tell o rest, mishaps, t =>
    let r := rest.runAmid cwd mishaps t
    { r with outputs := o :: r.outputs }
  | ask c rest, mishaps, t =>
    let (reply, t') := t.answerAmid cwd (mishaps.headD none) c
    (rest reply).runAmid cwd mishaps.tail t'

theorem runAmid_nil (cwd : Files.Location) (s : Session α) (t : Files.Tree) :
    s.runAmid cwd [] t = s.run cwd t := by
  induction s generalizing t with
  | done a => rfl
  | tell o rest ih => simp only [runAmid, run, ih]
  | ask c rest ih => exact ih _ _

theorem runAmid_bind (cwd : Files.Location) (s : Session α) (f : α → Session β)
    (mishaps : List Mishap) (t : Files.Tree) :
    ∃ later, (s >>= f).runAmid cwd mishaps t =
      let first := s.runAmid cwd mishaps t
      let second := (f first.result).runAmid cwd later first.tree
      { second with outputs := first.outputs ++ second.outputs } := by
  change ∃ later, (Session.bind s f).runAmid cwd mishaps t = _
  induction s generalizing mishaps t with
  | done a => exact ⟨mishaps, rfl⟩
  | tell o rest ih =>
    obtain ⟨later, h⟩ := ih mishaps t
    exact ⟨later, by simp only [bind, runAmid, h, List.cons_append]⟩
  | ask c rest ih => exact ih _ mishaps.tail _

theorem runAmid_rest (cwd : Files.Location) (s : Session α) (f : α → Session β)
    (mishaps : List Mishap) (t : Files.Tree) :
    let o := (s >>= f).runAmid cwd mishaps t
    let first := s.runAmid cwd mishaps t
    ∃ later, o.result = ((f first.result).runAmid cwd later first.tree).result ∧
      o.tree = ((f first.result).runAmid cwd later first.tree).tree := by
  intro o first
  obtain ⟨later, hrun⟩ := runAmid_bind cwd s f mishaps t
  exact ⟨later, by rw [show o = _ from hrun], by rw [show o = _ from hrun]⟩

@[simp] theorem runAmid_pure (cwd : Files.Location) (a : α) (mishaps : List Mishap)
    (t : Files.Tree) : (pure a : Session α).runAmid cwd mishaps t = ⟨a, t, []⟩ := rfl

theorem runAmid_log_bind (cwd : Files.Location) (e : Log.Event) (s : Session α)
    (mishaps : List Mishap) (t : Files.Tree) :
    (log e >>= fun _ => s).runAmid cwd mishaps t =
      { s.runAmid cwd mishaps t with outputs := .log e :: (s.runAmid cwd mishaps t).outputs } := rfl

/-- What a session ensures about its result and the tree, whatever mishaps it meets. -/
def Ensures (cwd : Files.Location) (s : Session α) (t : Files.Tree)
    (post : α → Files.Tree → Prop) : Prop :=
  ∀ mishaps, post (s.runAmid cwd mishaps t).result (s.runAmid cwd mishaps t).tree

theorem ensures_pure {cwd : Files.Location} {a : α} {t : Files.Tree} {post : α → Files.Tree → Prop}
    (h : post a t) : (pure a : Session α).Ensures cwd t post := fun _ => h

theorem Ensures.bind {cwd : Files.Location} {s : Session α} {t : Files.Tree} {f : α → Session β}
    {mid : α → Files.Tree → Prop} {post : β → Files.Tree → Prop} (h : s.Ensures cwd t mid)
    (hf : ∀ a t', mid a t' → (f a).Ensures cwd t' post) : (s >>= f).Ensures cwd t post := by
  intro mishaps
  obtain ⟨later, hrun⟩ := runAmid_bind cwd s f mishaps t
  rw [hrun]
  exact hf _ _ (h mishaps) later

theorem ensures_read (cwd : Files.Location) (path : List Char) (t : Files.Tree) :
    (call (.read path)).Ensures cwd t fun reply t' =>
      t' = t ∧ ∀ bytes, reply = .ok bytes → t.read cwd path = .ok bytes := by
  intro mishaps
  change (t.answerAmid cwd (mishaps.headD none) (.read path)).2 = t ∧
    ∀ bytes, (t.answerAmid cwd (mishaps.headD none) (.read path)).1 = .ok bytes → _
  cases mishaps.headD none with
  | none => exact ⟨rfl, fun bytes h => h⟩
  | some e => exact ⟨rfl, fun bytes h => by contradiction⟩

def returned? : Session α → Option α
  | done a => some a
  | tell _ rest => rest.returned?
  | ask _ _ => none

theorem stepAmid_of_returned {s : Session α} {a : α} (h : s.returned? = some a)
    (cwd : Files.Location) (mishap : Mishap) (t : Files.Tree) :
    (s.stepAmid cwd mishap t).1.returned? = some a ∧ (s.stepAmid cwd mishap t).2 = t ∧
      s.renamesAmid cwd mishap t = false := by
  induction s with
  | done b => exact ⟨h, rfl, rfl⟩
  | tell o rest ih => exact ih h
  | ask c rest => contradiction

theorem runAmid_keeps {cwd : Files.Location} {holds : Session α → Files.Tree → Prop}
    (hstep : ∀ mishap s t, holds s t →
      holds (s.stepAmid cwd mishap t).1 (s.stepAmid cwd mishap t).2)
    (mishaps : List Mishap) {s : Session α} {t : Files.Tree} (h : holds s t) :
    ∃ last, last.returned? = some (s.runAmid cwd mishaps t).result ∧
      holds last (s.runAmid cwd mishaps t).tree := by
  -- A step passes by output, so the induction carries the session that the last step left.
  suffices hrun : ∀ left : Session α, left.returned? = s.returned? →
      (∀ mishap t, left.stepAmid cwd mishap t = s.stepAmid cwd mishap t) → holds left t →
      ∃ last, last.returned? = some (s.runAmid cwd mishaps t).result ∧
        holds last (s.runAmid cwd mishaps t).tree from hrun s rfl (fun _ _ => rfl) h
  clear h
  induction s generalizing mishaps t with
  | done a => exact fun left hr _ h => ⟨left, hr, h⟩
  | tell o rest ih => exact fun left hr hs h => ih mishaps left hr hs h
  | ask c rest ih =>
    intro left _ hs h
    have hnext := hstep (mishaps.headD none) left t h
    rw [hs] at hnext
    exact ih _ mishaps.tail _ rfl (fun _ _ => rfl) hnext

end Session
end ToolRoster
