import ToolRoster.Proofs.Files.Replacing
import ToolRoster.Proofs.Files.Ways
/-!
# Runs in step

Two trees have the same directories and agree outside some places that are hidden from a session: the
ways of its paths do not lead through them, and it does not look at what stands there. Then every call
has one reply on both trees and keeps them so, and two runs that meet the same mishaps end alike.
-/
namespace ToolRoster

namespace Session
open Files (Call Location Mishap Reply Tree)
variable {α β : Type} {allowed : Call → Prop}

/-- A session that makes calls of one kind only, whatever is replied. -/
inductive Asks (allowed : Call → Prop) : Session α → Prop where
  | done (a : α) : Asks allowed (done a)
  | tell {rest : Session α} (o : Output) (h : Asks allowed rest) : Asks allowed (tell o rest)
  | ask {c : Call} {rest : Reply → Session α} (hc : allowed c)
    (h : ∀ reply, Asks allowed (rest reply)) : Asks allowed (ask c rest)

theorem asks_pure (a : α) : (pure a : Session α).Asks allowed := .done a

theorem asks_log (e : Log.Event) : (log e).Asks allowed := .tell _ (.done ())

theorem asks_call {c : Call} (hc : allowed c) : (call c).Asks allowed := .ask hc .done

theorem Asks.bind {s : Session α} {f : α → Session β} (h : s.Asks allowed)
    (hf : ∀ a, (f a).Asks allowed) : (s >>= f).Asks allowed := by
  change (Session.bind s f).Asks allowed
  induction h with
  | done a => exact hf a
  | tell o h ih => exact .tell o ih
  | ask hc h ih => exact .ask hc ih

theorem Asks.lockstep {cwd : Location} {related : Tree → Tree → Prop}
    (hstep : ∀ c mishap t t', allowed c → related t t' →
      (t'.answerAmid cwd mishap c).1 = (t.answerAmid cwd mishap c).1 ∧
        related (t.answerAmid cwd mishap c).2 (t'.answerAmid cwd mishap c).2)
    {s : Session α} (h : s.Asks allowed) (mishaps : List Mishap) {t t' : Tree}
    (ht : related t t') :
    (s.runAmid cwd mishaps t').result = (s.runAmid cwd mishaps t).result ∧
      related (s.runAmid cwd mishaps t).tree (s.runAmid cwd mishaps t').tree := by
  induction h generalizing mishaps t t' with
  | done a => exact ⟨rfl, ht⟩
  | tell o h ih => exact ih mishaps ht
  | ask hc h ih =>
    obtain ⟨hreply, hafter⟩ := hstep _ (mishaps.headD none) t t' hc ht
    simp only [runAmid]
    rw [hreply]
    exact ih _ mishaps.tail hafter

end Session

namespace Files

/-- Trees with the same directories and, outside hidden places, the same files. -/
structure Tree.AgreeOutside (t t' : Tree) (hidden : Location → Prop) : Prop where
  same : t.SameDirectories t'
  kept : ∀ loc, ¬hidden loc → t'.node? loc = t.node? loc

/-- The way to the last name of a path leads through no hidden place. -/
def Steady (hidden : Location → Prop) (t : Tree) (cwd : Location) (path : List Char) : Prop :=
  ∀ place ∈ t.trail (start cwd path) (steps path).dropLast, ¬hidden place

structure Plain (hidden : Location → Prop) (t : Tree) (cwd : Location) (path : List Char) :
    Prop where
  steady : Steady hidden t cwd path
  bare : ∀ file, t.place cwd path = .ok file → ¬hidden file

/-- A call that does not look at hidden files; it may put a file in the place of one. -/
def Call.Blind (hidden : Location → Prop) (t : Tree) (cwd : Location) : Call → Prop
  | .read _ => False
  | .create path => Plain hidden t cwd path
  | .append path _ => Plain hidden t cwd path
  | .sync path => Plain hidden t cwd path
  | .rename source target => Plain hidden t cwd source ∧ Steady hidden t cwd target
  | .remove path => Plain hidden t cwd path

section
variable {hidden : Location → Prop} {t t' u : Tree} {cwd : Location} {path : List Char}

theorem Tree.SameDirectories.steady (h : t.SameDirectories u) (hs : Steady hidden t cwd path) :
    Steady hidden u cwd path := fun place hplace => hs place (h.mem_trail_iff.mp hplace)

theorem Tree.SameDirectories.plain (h : t.SameDirectories u) (hp : Plain hidden t cwd path) :
    Plain hidden u cwd path :=
  ⟨h.steady hp.steady, fun file hfile => hp.bare file (h.symm.place_eq_ok hfile)⟩

theorem Tree.SameDirectories.blind (h : t.SameDirectories u) {c : Call}
    (hc : c.Blind hidden t cwd) : c.Blind hidden u cwd := by
  cases c with
  | read path => exact hc
  | rename source target => exact ⟨h.plain hc.1, h.steady hc.2⟩
  | _ => exact h.plain hc

theorem Tree.sameDirectories_effect {c : Call} (h : t.effect cwd c = .ok u) :
    t.SameDirectories u := by
  cases c with
  | read path =>
    simp only [effect] at h
    cases hr : t.read cwd path with
    | error e =>
      rw [hr] at h
      contradiction
    | ok bytes =>
      rw [hr] at h
      obtain rfl := Except.ok.inj h
      exact fun _ => Iff.rfl
  | create path =>
    obtain ⟨file, hp, rfl⟩ := create_eq_ok_iff.mp h
    exact sameDirectories_put t ((place_eq_ok_iff _ _ _ _).mp hp).2.1 _
  | append path chunk =>
    obtain ⟨file, content, hf, rfl⟩ := append_eq_ok_iff.mp h
    exact sameDirectories_put t (not_directory_of_fileAt hf) _
  | sync path =>
    obtain rfl := eq_of_effect_sync h
    exact fun _ => Iff.rfl
  | rename source target =>
    obtain ⟨file, content, new, hf, hp, rfl⟩ := rename_eq_ok_iff.mp h
    have herase := sameDirectories_erase t (not_directory_of_fileAt hf)
    have hnew := ((place_eq_ok_iff _ _ _ _).mp (herase.place_eq_ok hp)).2.1
    exact herase.trans (sameDirectories_put _ hnew _)
  | remove path =>
    obtain ⟨file, content, hf, rfl⟩ := remove_eq_ok_iff.mp h
    exact sameDirectories_erase t (not_directory_of_fileAt hf)

theorem Tree.sameDirectories_answerAmid (t : Tree) (cwd : Location) (mishap : Mishap) (c : Call) :
    t.SameDirectories (t.answerAmid cwd mishap c).2 := by
  rcases t.answerAmid_cases cwd mishap c with ⟨e, ha, -⟩ | ⟨bytes, u, hu, ha⟩
  · rw [ha]
    exact fun _ => Iff.rfl
  · rw [ha]
    exact sameDirectories_effect hu

end

namespace Tree
variable {hidden : Location → Prop} {t t' u : Tree} {cwd : Location} {path : List Char}

/-- What a call makes of two trees: trees that agree again, or one refusal. -/
inductive AgreeAfter (hidden : Location → Prop) : Except Refusal Tree → Except Refusal Tree → Prop
    where
  | error (e : Refusal) : AgreeAfter hidden (.error e) (.error e)
  | ok {t t' : Tree} (h : t.AgreeOutside t' hidden) : AgreeAfter hidden (.ok t) (.ok t')

theorem agreeAfter_bind {α : Type} (x : Except Refusal α) {f g : α → Except Refusal Tree}
    (h : ∀ a, AgreeAfter hidden (f a) (g a)) : AgreeAfter hidden (x >>= f) (x >>= g) := by
  cases x with
  | error e => exact .error e
  | ok a => exact h a

theorem AgreeAfter.reply {x x' : Except Refusal Tree} (hx : AgreeAfter hidden x x')
    (h : t.AgreeOutside t' hidden) :
    let changed (before : Tree) (result : Except Refusal Tree) : Reply × Tree :=
      match result with
      | .ok after => (.ok .empty, after)
      | .error e => (.error e, before)
    (changed t' x').1 = (changed t x).1 ∧
      (changed t x).2.AgreeOutside (changed t' x').2 hidden := by
  cases hx with
  | error e => exact ⟨rfl, h⟩
  | ok h' => exact ⟨rfl, h'⟩

theorem AgreeOutside.mono (h : t.AgreeOutside t' hidden) {wider : Location → Prop}
    (hwider : ∀ loc, hidden loc → wider loc) : t.AgreeOutside t' wider :=
  ⟨h.same, fun loc hloc => h.kept loc (mt (hwider loc) hloc)⟩

theorem AgreeOutside.trans (h : t.AgreeOutside t' hidden) (h' : t'.AgreeOutside u hidden) :
    t.AgreeOutside u hidden :=
  ⟨h.same.trans h'.same, fun loc hloc => (h'.kept loc hloc).trans (h.kept loc hloc)⟩

section
variable (h : t.AgreeOutside t' hidden)
include h

theorem AgreeOutside.put (loc : Location) (n : Node) :
    (t.put loc n).AgreeOutside (t'.put loc n) hidden := by
  constructor
  · intro other
    rw [node?_put, node?_put]
    split_ifs
    · rfl
    · rfl
    · exact h.same other
  · intro other hother
    rw [node?_put, node?_put, h.kept other hother]

theorem AgreeOutside.erase (loc : Location) :
    (t.erase loc).AgreeOutside (t'.erase loc) hidden := by
  constructor
  · intro other
    rw [node?_erase, node?_erase]
    split_ifs
    · rfl
    · rfl
    · exact h.same other
  · intro other hother
    rw [node?_erase, node?_erase, h.kept other hother]

theorem AgreeOutside.locateLast (hs : Steady hidden t cwd path) :
    t'.locateLast cwd path = t.locateLast cwd path := by
  have hwalk : t'.walk (start cwd path) (steps path).dropLast =
      t.walk (start cwd path) (steps path).dropLast :=
    walk_congr fun place hplace => h.kept place (hs place hplace)
  unfold Tree.locateLast
  rw [hwalk]
  cases checkPath path with
  | error e => rfl
  | ok u =>
    cases hw : t.walk (start cwd path) (steps path).dropLast with
    | error e => rfl
    | ok loc =>
      have henter := enter_congr (h.kept loc (hs loc (mem_trail_of_walk hw)))
      simp only [bind, Except.bind, henter]

theorem AgreeOutside.onDirectory {α : Type} (loc : Location) (x y : α) :
    (match t'.node? loc with | some .directory => x | _ => y) =
      match t.node? loc with | some .directory => x | _ => y := by
  by_cases hd : t.node? loc = some .directory
  · rw [hd, (h.same loc).mp hd]
  · have hd' := mt (h.same loc).mpr hd
    split
    · contradiction
    · rfl

theorem AgreeOutside.place (hs : Steady hidden t cwd path) :
    t'.place cwd path = t.place cwd path := by
  unfold Tree.place
  rw [h.locateLast hs]
  refine congrArg _ (funext fun last => ?_)
  obtain ⟨loc, step⟩ := last
  cases step with
  | none => rfl
  | some s =>
    cases s with
    | down name => exact congrArg _ (funext fun file => h.onDirectory file _ _)
    | _ => rfl

theorem AgreeOutside.fileAt (hp : Plain hidden t cwd path) :
    t'.fileAt cwd path = t.fileAt cwd path := by
  unfold Tree.fileAt
  rw [h.place hp.steady]
  cases hplace : t.place cwd path with
  | error e => rfl
  | ok file => simp only [bind, Except.bind, h.kept file (hp.bare file hplace)]

theorem AgreeOutside.create (hp : Plain hidden t cwd path) :
    AgreeAfter hidden (t.create cwd path) (t'.create cwd path) := by
  unfold Tree.create
  rw [h.place hp.steady]
  exact agreeAfter_bind _ fun file => .ok (h.put file _)

theorem AgreeOutside.append (hp : Plain hidden t cwd path) (chunk : ByteArray) :
    AgreeAfter hidden (t.append cwd path chunk) (t'.append cwd path chunk) := by
  unfold Tree.append
  rw [h.fileAt hp]
  exact agreeAfter_bind _ fun found => .ok (h.put found.1 _)

theorem AgreeOutside.remove (hp : Plain hidden t cwd path) :
    AgreeAfter hidden (t.remove cwd path) (t'.remove cwd path) := by
  unfold Tree.remove
  rw [h.fileAt hp]
  exact agreeAfter_bind _ fun found => .ok (h.erase found.1)

theorem AgreeOutside.sync (hp : Plain hidden t cwd path) :
    AgreeAfter hidden ((fun _ => t) <$> t.checkFile cwd path)
      ((fun _ => t') <$> t'.checkFile cwd path) := by
  unfold Tree.checkFile
  rw [h.fileAt hp]
  cases t.fileAt cwd path with
  | error e => exact .error e
  | ok found => exact .ok h

theorem AgreeOutside.rename {source target : List Char} (hsource : Plain hidden t cwd source)
    (htarget : Steady hidden t cwd target) :
    AgreeAfter hidden (t.rename cwd source target) (t'.rename cwd source target) := by
  unfold Tree.rename
  rw [h.locateLast hsource.steady, h.locateLast htarget, h.fileAt hsource]
  refine agreeAfter_bind _ fun from? => agreeAfter_bind _ fun to? => ?_
  obtain ⟨-, sourceStep⟩ := from?
  obtain ⟨loc, targetStep⟩ := to?
  simp only
  split
  · refine agreeAfter_bind _ fun found => agreeAfter_bind _ fun new => ?_
    split_ifs
    · exact .error _
    · by_cases hd : t.node? new = some .directory
      · rw [hd, (h.same new).mp hd]
        exact .error _
      · have hd' := mt (h.same new).mpr hd
        split
        · contradiction
        · exact .ok ((h.erase found.1).put new _)
  · exact .error _

theorem AgreeOutside.answer {c : Call} (hc : c.Blind hidden t cwd) :
    (t'.answer cwd c).1 = (t.answer cwd c).1 ∧
      (t.answer cwd c).2.AgreeOutside (t'.answer cwd c).2 hidden := by
  cases c with
  | read path => exact hc.elim
  | create path => exact (h.create hc).reply h
  | append path chunk => exact (h.append hc chunk).reply h
  | sync path => exact (h.sync hc).reply h
  | rename source target => exact (h.rename hc.1 hc.2).reply h
  | remove path => exact (h.remove hc).reply h

end

theorem AgreeOutside.answerAmid (h : t.AgreeOutside t' hidden) {c : Call}
    (hc : c.Blind hidden t cwd) (mishap : Mishap) :
    (t'.answerAmid cwd mishap c).1 = (t.answerAmid cwd mishap c).1 ∧
      (t.answerAmid cwd mishap c).2.AgreeOutside (t'.answerAmid cwd mishap c).2 hidden := by
  cases mishap with
  | none => exact h.answer hc
  | some e =>
    cases c with
    | remove path => exact h.answer hc
    | _ => exact ⟨rfl, h⟩

end Tree

section
variable {hidden : Location → Prop} {t t' : Tree} {cwd : Location}

theorem agreeOutside_run {α : Type} {s : Session α} (hs : s.Asks (Call.Blind hidden t cwd))
    (h : t.AgreeOutside t' hidden) (mishaps : List Mishap) :
    (s.runAmid cwd mishaps t').result = (s.runAmid cwd mishaps t).result ∧
      (s.runAmid cwd mishaps t).tree.AgreeOutside (s.runAmid cwd mishaps t').tree hidden := by
  -- The calls are blind on every tree that has the directories of the first.
  let related (u u' : Tree) : Prop := t.SameDirectories u ∧ u.AgreeOutside u' hidden
  have hstep : ∀ c mishap u u', Call.Blind hidden t cwd c → related u u' →
      (u'.answerAmid cwd mishap c).1 = (u.answerAmid cwd mishap c).1 ∧
        related (u.answerAmid cwd mishap c).2 (u'.answerAmid cwd mishap c).2 := by
    rintro c mishap u u' hc ⟨hsame, hu⟩
    obtain ⟨hreply, hafter⟩ := hu.answerAmid (hsame.blind hc) mishap
    exact ⟨hreply, hsame.trans (u.sameDirectories_answerAmid cwd mishap c), hafter⟩
  obtain ⟨hresult, -, hafter⟩ :=
    hs.lockstep hstep mishaps (show related t t' from ⟨fun _ => Iff.rfl, h⟩)
  exact ⟨hresult, hafter⟩

variable {process : Nat} {path : SlashPath}

open Session (asks_call asks_log asks_pure)

theorem asks_fill {temp : List Char} (htemp : Plain hidden t cwd temp) (chunks : List ByteArray) :
    (fill temp chunks).Asks (Call.Blind hidden t cwd) := by
  induction chunks with
  | nil => exact asks_call htemp
  | cons chunk chunks ih =>
    refine (asks_call htemp).bind fun reply => ?_
    cases reply with
    | ok bytes => exact ih
    | error e => exact asks_pure _

theorem asks_writeChunks (htemp : Plain hidden t cwd (temporary process path.chars))
    (htarget : Steady hidden t cwd path.chars) (chunks : List ByteArray) :
    (writeChunks process path chunks).Asks (Call.Blind hidden t cwd) := by
  have hcomplete : (complete (temporary process path.chars) path.chars chunks).Asks
      (Call.Blind hidden t cwd) := by
    refine (asks_fill htemp chunks).bind fun reply => ?_
    cases reply with
    | ok bytes => exact asks_call ⟨htemp, htarget⟩
    | error e => exact asks_pure _
  refine (asks_call htemp).bind fun reply => ?_
  cases reply with
  | error e => exact asks_pure _
  | ok bytes =>
    refine hcomplete.bind fun reply => ?_
    cases reply with
    | error e => exact (asks_call htemp).bind fun _ => asks_pure _
    | ok bytes => exact (asks_log _).bind fun _ => asks_pure _

end

end Files
end ToolRoster
