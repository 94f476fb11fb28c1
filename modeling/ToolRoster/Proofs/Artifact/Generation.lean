import ToolRoster.Artifact.Generate
import ToolRoster.Proofs.Files.Replacing
import ToolRoster.Proofs.SlashPath.Joining
/-!
# What generating leaves behind

Two files are written one after the other, and each write is all or nothing. Together they are not:
the run may end between them. These are the only ways it ends, and a write of one artifact does not
touch the other.
-/
namespace ToolRoster

/-- A text that can be the last name of a path as it is. -/
structure IsFileName (name : List Char) : Prop where
  not_slash : '/' ∉ name
  not_backslash : '\\' ∉ name
  step_of : Files.Step.of name = .down name
  ne_nil : name ≠ []

section
variable (directory : SlashPath) {name : List Char} (h : IsFileName name)
include h

theorem IsFileName.chars_join : (directory.join name).chars = Files.pushName directory.chars name := by
  rw [SlashPath.chars_join, SlashPath.normalize_of_not_mem h.not_backslash]

theorem IsFileName.steps_join :
    Files.steps (directory.join name).chars = Files.steps directory.chars ++ [.down name] := by
  rw [h.chars_join, Files.steps_pushName, Files.steps_of_name h.not_slash h.ne_nil, h.step_of]

theorem IsFileName.lentName_join : Files.lentName (directory.join name).chars = name := by
  apply Files.lentName_of_getLast?
  rw [h.steps_join, List.getLast?_concat]

theorem IsFileName.temporaryFor_join (process : Nat) :
    Files.temporaryFor process (directory.join name).chars = Files.temporaryName name process := by
  rw [Files.temporaryFor, h.lentName_join]

theorem IsFileName.isAbsolute_join :
    Files.isAbsolute (directory.join name).chars = Files.isAbsolute directory.chars := by
  have hrel : directory.chars = [] → Files.isAbsolute name = false := by
    intro
    unfold Files.isAbsolute
    rw [decide_eq_false_iff_not]
    exact fun hn => h.not_slash (List.mem_of_mem_head? hn)
  rw [h.chars_join, Files.isAbsolute_pushName _ _ hrel]

theorem IsFileName.start_join (cwd : Files.Location) :
    Files.start cwd (directory.join name).chars = Files.start cwd directory.chars := by
  rw [Files.start, h.isAbsolute_join, Files.start]

end

theorem Files.Tree.Replaced.read_beside {t t' : Files.Tree} {cwd : Files.Location}
    {directory : SlashPath} {name other : List Char} {content : ByteArray}
    (hname : IsFileName name) (hother : IsFileName other) (hne : other ≠ name)
    (h : t.Replaced cwd (directory.join name).chars content t') :
    t'.read cwd (directory.join other).chars = t.read cwd (directory.join other).chars := by
  have hsame := h.sameDirectories
  obtain ⟨place, hp, rfl⟩ := h
  obtain ⟨⟨loc, last, hl, ht⟩, -⟩ := (Tree.place_eq_ok_iff _ _ _ _).mp hp
  obtain ⟨-, hw, hloc, hlast⟩ := (Tree.locateLast_eq_ok_iff _ _ _ _ _).mp hl
  obtain rfl := Tree.target_down_eq ht
  rw [hname.steps_join, List.getLast?_concat, Option.some.injEq, Step.down.injEq] at hlast
  rw [hname.steps_join, hname.start_join, List.dropLast_concat, ← hother.start_join] at hw
  have hsteps : steps (directory.join other).chars = steps directory.chars ++
      List.replicate 0 .stay ++ .down other :: List.replicate 0 .stay := by
    simp [hother.steps_join]
  have hplace : other :: loc ≠ last :: loc := by
    rw [← hlast]
    exact fun he => hne (List.cons.inj he).1
  exact hsame.read_name hw hloc (Tree.agreeOff_put t _ _) hsteps hplace

theorem IsFileName.lacks_of_replaced {t t' : Files.Tree} {cwd : Files.Location}
    {directory : SlashPath} {name other : List Char} {content : ByteArray} (h : IsFileName name)
    (hother : t.Lacks other) (hne : name ≠ other)
    (hr : t.Replaced cwd (directory.join name).chars content t') : t'.Lacks other := by
  obtain ⟨place, hp, rfl⟩ := hr
  obtain ⟨outer, rfl⟩ := Files.place_target hp
  apply hother.put
  rw [h.lentName_join, List.head?_cons]
  exact fun he => hne (Option.some.inj he)

namespace Artifact

theorem isFileName_strategy : IsFileName Strategy.fileName.toList := by
  constructor <;> decide

theorem isFileName_availability : IsFileName Availability.fileName.toList := by
  constructor <;> decide

section
variable {process : Nat} {cwd : Files.Location}
open Files (Mishap temporaryFor temporaryName)

theorem ensures_logAll (events : List Log.Event) (t : Files.Tree) :
    (logAll events).Ensures cwd t fun _ t' => t' = t := by
  induction events with
  | nil => exact fun _ => rfl
  | cons e es ih => exact ih

theorem ensures_write (path : SlashPath) (text : String) {t : Files.Tree}
    (h : t.Lacks (temporaryFor process path.chars)) :
    (write process path text).Ensures cwd t fun result t' =>
      (result = .ok ⟨path, text.toUTF8.size⟩ ∧ t.Replaced cwd path.chars text.toUTF8 t') ∨
      ∃ e, result = .error (.io path e) ∧ t' = t := by
  refine (Files.ensures_writeChunks [text.toUTF8] cwd h).bind ?_
  rintro result t' (⟨rfl, hreplaced⟩ | ⟨e, rfl, rfl⟩)
  · rw [Files.joined_singleton] at hreplaced
    exact fun _ => Or.inl ⟨rfl, hreplaced⟩
  · exact fun _ => Or.inr ⟨e, rfl, rfl⟩

theorem fileName_ne_temporaryName {name : List Char} (h : name.head? ≠ some '.')
    (other : List Char) (process : Nat) : name ≠ temporaryName other process := by
  rintro rfl
  exact h rfl

theorem lacks_of_replaced {directory : SlashPath} {name other : List Char} {content : ByteArray}
    {t t' : Files.Tree}
    (hname : name = Strategy.fileName.toList ∨ name = Availability.fileName.toList)
    (h : t.Lacks (temporaryName other process))
    (hr : t.Replaced cwd (directory.join name).chars content t') :
    t'.Lacks (temporaryName other process) := by
  rcases hname with rfl | rfl
  · exact isFileName_strategy.lacks_of_replaced h (fileName_ne_temporaryName (by decide) _ _) hr
  · exact isFileName_availability.lacks_of_replaced h (fileName_ne_temporaryName (by decide) _ _) hr

theorem strategy_ne_listing (directory : SlashPath) :
    directory.joinString Strategy.fileName ≠ directory.joinString Availability.fileName := by
  intro h
  have hname := isFileName_strategy.lentName_join directory
  rw [show directory.join _ = directory.join _ from h,
    isFileName_availability.lentName_join] at hname
  exact absurd hname (by decide)

theorem ensures_generate (r : Registry) (directory : SlashPath) {t : Files.Tree}
    (hs : t.Lacks (temporaryName Strategy.fileName.toList process))
    (ha : t.Lacks (temporaryName Availability.fileName.toList process)) :
    let strategy := directory.joinString Strategy.fileName
    let listing := directory.joinString Availability.fileName
    let document := (Strategy.render r).toUTF8
    let list := (Availability.render r).toUTF8
    (generate process r directory).Ensures cwd t fun result t' =>
      (result = .ok ⟨⟨strategy, document.size⟩, ⟨listing, list.size⟩⟩ ∧
        ∃ between, t.Replaced cwd strategy.chars document between ∧
          between.Replaced cwd listing.chars list t') ∨
      (∃ e, result = .error (.io strategy e) ∧ t' = t) ∨
      ∃ e, result = .error (.io listing e) ∧ t.Replaced cwd strategy.chars document t' := by
  intro strategy listing document list
  refine (ensures_logAll (strategyEvents r) t).bind ?_
  rintro ⟨⟩ t' rfl
  rw [← isFileName_strategy.temporaryFor_join directory] at hs
  refine (ensures_write strategy (Strategy.render r) hs).bind ?_
  rintro result between (⟨rfl, hstrategy⟩ | ⟨e, rfl, rfl⟩)
  · have hl := lacks_of_replaced (.inl rfl) ha hstrategy
    rw [← isFileName_availability.temporaryFor_join directory] at hl
    refine (ensures_write listing (Availability.render r) hl).bind ?_
    rintro result t'' (⟨rfl, hlisting⟩ | ⟨e, rfl, rfl⟩)
    · exact fun _ => Or.inl ⟨rfl, between, hstrategy, hlisting⟩
    · exact fun _ => Or.inr (Or.inr ⟨e, rfl, hstrategy⟩)
  · exact fun _ => Or.inr (Or.inl ⟨e, rfl, rfl⟩)

theorem ensures_error_write (path : SlashPath) (text : String) (t : Files.Tree) :
    (write process path text).Ensures cwd t fun result _ =>
      ∀ e, result = .error e → ∃ refusal, e = .io path refusal := by
  refine (Files.ensures_error_io [text.toUTF8] cwd t).bind fun result t' hio => ?_
  cases result with
  | error e =>
    apply Session.ensures_pure
    rintro _ ⟨⟩
    exact hio e rfl
  | ok u => exact fun _ e he => by contradiction

theorem ensures_error_generate (process : Nat) (r : Registry) (directory : SlashPath)
    (cwd : Files.Location) (t : Files.Tree) :
    (generate process r directory).Ensures cwd t fun result _ => ∀ e, result = .error e →
      ∃ refusal, e = .io (directory.joinString Strategy.fileName) refusal ∨
        e = .io (directory.joinString Availability.fileName) refusal := by
  refine (ensures_logAll (strategyEvents r) t).bind fun _ t₁ _ => ?_
  refine (ensures_error_write _ (Strategy.render r) t₁).bind fun strategy t₂ hstrategy => ?_
  cases strategy with
  | error e =>
    obtain ⟨refusal, rfl⟩ := hstrategy e rfl
    apply Session.ensures_pure
    rintro _ ⟨⟩
    exact ⟨refusal, Or.inl rfl⟩
  | ok w =>
    refine (ensures_error_write _ (Availability.render r) t₂).bind fun listing t₃ hlisting => ?_
    cases listing with
    | error e =>
      obtain ⟨refusal, rfl⟩ := hlisting e rfl
      apply Session.ensures_pure
      rintro _ ⟨⟩
      exact ⟨refusal, Or.inr rfl⟩
    | ok w' => exact fun _ e he => by contradiction

theorem ensures_written (path : SlashPath) (text : String) (t : Files.Tree) :
    (write process path text).Ensures cwd t fun result t' => ∀ w, result = .ok w →
      ∃ base, t.AgreeBut base (temporaryFor process path.chars) ∧
        base.Replaced cwd path.chars text.toUTF8 t' := by
  refine (Files.ensures_written [text.toUTF8] cwd t).bind fun result t' hwritten => ?_
  cases result with
  | error e => exact fun _ w hw => by contradiction
  | ok u =>
    rw [Files.joined_singleton] at hwritten
    exact fun _ w _ => hwritten rfl

theorem strategy_ne_temporary (process : Nat) (directory : SlashPath) : Strategy.fileName.toList ≠
    temporaryFor process (directory.joinString Availability.fileName).chars := by
  rw [SlashPath.joinString, isFileName_availability.temporaryFor_join]
  exact fileName_ne_temporaryName (by decide) _ _

theorem ensures_generated (process : Nat) (r : Registry) (directory : SlashPath)
    (cwd : Files.Location) (t : Files.Tree) :
    (generate process r directory).Ensures cwd t fun result t' => ∀ a, result = .ok a →
      t.SameDirectories t' ∧
        t'.read cwd (directory.joinString Strategy.fileName).chars =
          .ok (Strategy.render r).toUTF8 ∧
        t'.read cwd (directory.joinString Availability.fileName).chars =
          .ok (Availability.render r).toUTF8 := by
  refine (ensures_logAll (strategyEvents r) t).bind fun _ t' ht => ?_
  subst ht
  refine (ensures_written _ (Strategy.render r) t').bind fun result between hstrategy => ?_
  cases result with
  | error e => exact fun _ a ha => by contradiction
  | ok w =>
    obtain ⟨base, hbase, hstrategy⟩ := hstrategy w rfl
    refine (ensures_written _ (Availability.render r) between).bind fun result t'' hlisting => ?_
    cases result with
    | error e => exact fun _ a ha => by contradiction
    | ok w' =>
      obtain ⟨base', hbase', hlisting⟩ := hlisting w' rfl
      have hsame := (hbase.1.trans hstrategy.sameDirectories).trans
        (hbase'.1.trans hlisting.sameDirectories)
      have hlast : (Files.steps (directory.joinString Strategy.fileName).chars).getLast? =
          some (.down Strategy.fileName.toList) := by
        rw [SlashPath.joinString, isFileName_strategy.steps_join, List.getLast?_concat]
      have hkept := hbase'.read_eq_ok hlast (strategy_ne_temporary process directory) hstrategy.read
      have hread := hlisting.read_beside isFileName_availability isFileName_strategy (by decide)
      exact fun _ a _ => ⟨hsame, hread.trans hkept, hlisting.read⟩

/-- Generating ends in one of three ways: both artifacts are written; or the first write fails and
nothing has changed; or the second fails, and the strategy document is there in full beside the
listing of before. -/
theorem generate_outcome (process : Nat) (r : Registry) (directory : SlashPath)
    (cwd : Files.Location) (mishaps : List Mishap) {t : Files.Tree}
    (hs : t.Lacks (temporaryName Strategy.fileName.toList process))
    (ha : t.Lacks (temporaryName Availability.fileName.toList process)) :
    let strategy := directory.joinString Strategy.fileName
    let listing := directory.joinString Availability.fileName
    let document := (Strategy.render r).toUTF8
    let list := (Availability.render r).toUTF8
    let o := (generate process r directory).runAmid cwd mishaps t
    strategy ≠ listing ∧
    ((o.result = .ok ⟨⟨strategy, document.size⟩, ⟨listing, list.size⟩⟩ ∧
        o.tree.read cwd strategy.chars = .ok document ∧
        o.tree.read cwd listing.chars = .ok list ∧
        ∃ p q, t.locate cwd strategy.chars = .ok p ∧ t.locate cwd listing.chars = .ok q ∧
          ∀ other, other ≠ p → other ≠ q → o.tree.node? other = t.node? other) ∨
      (∃ e, o.result = .error (.io strategy e) ∧ o.tree = t) ∨
      (∃ e, o.result = .error (.io listing e) ∧
        o.tree.read cwd strategy.chars = .ok document ∧
        o.tree.read cwd listing.chars = t.read cwd listing.chars ∧
        ∃ p, t.locate cwd strategy.chars = .ok p ∧
          ∀ other, other ≠ p → o.tree.node? other = t.node? other)) := by
  intro strategy listing document list o
  refine ⟨strategy_ne_listing directory, ?_⟩
  rcases ensures_generate r directory hs ha mishaps with
    ⟨hr, between, hstrategy, hlisting⟩ | ⟨e, hr, ht⟩ | ⟨e, hr, hstrategy⟩
  · left
    have hread : o.tree.read cwd strategy.chars = between.read cwd strategy.chars :=
      hlisting.read_beside isFileName_availability isFileName_strategy (by decide)
    refine ⟨hr, hread.trans hstrategy.read, hlisting.read, ?_⟩
    obtain ⟨q, hq, hlast⟩ := hlisting
    have hq' := hstrategy.sameDirectories.symm.place_eq_ok hq
    obtain ⟨p, hp, -, hframe⟩ := hstrategy.node?
    refine ⟨p, q, hp, Files.Tree.locate_of_place hq', fun other hop hoq => ?_⟩
    rw [show o.tree = _ from hlast, Files.Tree.node?_put_of_ne _ hoq, hframe other hop]
  · exact Or.inr (Or.inl ⟨e, hr, ht⟩)
  · right
    right
    have hread : o.tree.read cwd listing.chars = t.read cwd listing.chars :=
      hstrategy.read_beside isFileName_strategy isFileName_availability (by decide)
    obtain ⟨p, hp, -, hframe⟩ := hstrategy.node?
    exact ⟨e, hr, hstrategy.read, hread, p, hp, hframe⟩

theorem generate_outcome_between :
    let t := (Files.Tree.empty.makeDirectory ["mcp-tools.txt".toList, "out".toList]).put
      ["mcp-strategy.md".toList, "out".toList] (.file "old".toUTF8)
    let r := Registry.ofList [{ name := "crash", capability := .debug, available := true }]
    let strategy := SlashPath.ofString "out//mcp-strategy.md"
    let listing := SlashPath.ofString "out//mcp-tools.txt"
    let o := (generate 12 r (.ofString "out//")).runAmid [] [] t
    t.Lacks (temporaryName Strategy.fileName.toList 12) ∧
      t.Lacks (temporaryName Availability.fileName.toList 12) ∧
      o.result = .error (.io listing .isDirectory) ∧
      o.tree.read [] strategy.chars = .ok (Strategy.render r).toUTF8 ∧
      o.tree.read [] listing.chars = t.read [] listing.chars := by
  intro t r strategy listing o
  have hs : t.Lacks (temporaryName Strategy.fileName.toList 12) := by decide
  have ha : t.Lacks (temporaryName Availability.fileName.toList 12) := by decide
  have hr : o.result = .error (.io listing .isDirectory) := by decide +kernel
  refine ⟨hs, ha, hr, ?_⟩
  rcases (generate_outcome 12 r (.ofString "out//") [] [] hs ha).2 with
    ⟨hok, -⟩ | ⟨e, herror, -⟩ | ⟨e, -, hstrategy, hlisting, -⟩
  · exact absurd (hr.symm.trans hok) (by simp)
  · have hpath := (FileError.io.inj (Except.error.inj (hr.symm.trans herror))).1
    exact absurd hpath (by decide)
  · exact ⟨hstrategy, hlisting⟩

end

end Artifact
end ToolRoster
