import ToolRoster.Json.Writer
import ToolRoster.Proofs.Artifact.Generation
import ToolRoster.Proofs.CommandLine.Runs
import ToolRoster.Proofs.Files.FileNames
/-!
# The effects of a run

A run changes no more than the two artifacts, and nothing before its registry is loaded and valid.
The registry file stays, since no artifact has the name of a registry file. Something is printed
exactly when the run succeeds.
-/
namespace ToolRoster

namespace Artifact
open Session (silent_pure silent_log)

theorem silent_logAll (events : List Log.Event) : (logAll events).Silent := by
  induction events with
  | nil => exact silent_pure ()
  | cons e es ih => exact (silent_log e).bind fun _ => ih

theorem prints_write (process : Nat) (path : SlashPath) (text : String) :
    (write process path text).Prints fun result out =>
      out = "" ∧ ∀ w, result = .ok w → w.path = path := by
  refine (Files.silent_writeChunks process path [text.toUTF8]).prints_bind fun written => ?_
  cases written with
  | error e => exact .done ⟨rfl, fun w hw => by contradiction⟩
  | ok u =>
    refine (silent_log _).prints_bind fun _ => .done ⟨rfl, fun w hw => ?_⟩
    cases hw
    rfl

theorem prints_generate (process : Nat) (r : Registry) (directory : SlashPath) :
    (generate process r directory).Prints fun result out => out = "" ∧ ∀ a, result = .ok a →
      a.strategy.path = directory.joinString Strategy.fileName ∧
        a.availability.path = directory.joinString Availability.fileName := by
  refine (silent_logAll _).prints_bind fun _ => ?_
  refine (prints_write process _ (Strategy.render r)).bind fun written out hstrategy => ?_
  obtain ⟨rfl, hs⟩ := hstrategy
  cases written with
  | error e => exact .done ⟨rfl, fun a ha => by contradiction⟩
  | ok strategy =>
    refine (prints_write process _ (Availability.render r)).bind fun written out hlisting => ?_
    obtain ⟨rfl, hl⟩ := hlisting
    cases written with
    | error e => exact .done ⟨rfl, fun a ha => by contradiction⟩
    | ok listing =>
      refine .done ⟨rfl, fun a ha => ?_⟩
      cases ha
      exact ⟨hs strategy rfl, hl listing rfl⟩

end Artifact

namespace CommandLine
open Files (Location Mishap Tree temporaryName)

section
variable (env : Environment)

theorem prints_list (file : Option String) (capability : Option Capability) :
    (list env file capability).Prints fun result text => text ≠ "" ↔ result = .ok () := by
  refine (onlyReads_openRegistry env file).silent.prints_bind fun opened => ?_
  cases opened with
  | error e => exact .done (by simp)
  | ok r => exact .tell (.done (by simp [Output.printed, Availability.render, Availability.heading]))

theorem silent_reportDangling (ds : List Dangling) : (reportDangling env ds).Silent := by
  induction ds with
  | nil => exact Session.silent_pure ()
  | cons d ds ih =>
    exact (Session.silent_log _).bind fun _ => (Session.silent_printError _).bind fun _ => ih

theorem prints_check (file : Option String) :
    (check env file).Prints fun result text => text ≠ "" ↔ result = .ok () := by
  refine (onlyReads_openRegistry env file).silent.prints_bind fun opened => ?_
  cases opened with
  | error e => exact .done (by simp)
  | ok r =>
    simp only
    split_ifs
    · exact .tell (.done (by simp [Output.printed]))
    · exact (silent_reportDangling env _).prints_bind fun _ => .done (by simp)

theorem prints_generate (directory : String) (file : Option String) :
    (generate env directory file).Prints fun result text =>
      (result = .ok () ∧ ∃ a : Artifact.Artifacts, text = confirmation env directory a ∧
        a.strategy.path = (env.resolve directory).joinString Strategy.fileName ∧
        a.availability.path = (env.resolve directory).joinString Availability.fileName) ∨
      (∃ e, result = .error e) ∧ text = "" := by
  rw [generate_eq]
  refine (onlyReads_openValidated env file).silent.prints_bind fun opened => ?_
  cases opened with
  | error e => exact .done (Or.inr ⟨⟨_, rfl⟩, rfl⟩)
  | ok r =>
    refine (Artifact.prints_generate env.process r (env.resolve directory)).bind fun made out h => ?_
    obtain ⟨rfl, ha⟩ := h
    cases made with
    | error e => exact .done (Or.inr ⟨⟨_, rfl⟩, rfl⟩)
    | ok a =>
      refine (Session.silent_log _).prints_bind fun _ => .tell (.done (Or.inl ⟨rfl, a, ?_, ha a rfl⟩))
      simp [Output.printed]

theorem prints_command (c : Command) :
    (c.run env).Prints fun result text => text ≠ "" ↔ result = .ok () := by
  cases c with
  | generate directory file =>
    refine (prints_generate env directory file).mono fun result text h => ?_
    rcases h with ⟨rfl, a, rfl, -⟩ | ⟨⟨e, rfl⟩, rfl⟩
    · simp [confirmation]
    · simp
  | list file capability => exact prints_list env file capability
  | check file => exact prints_check env file

theorem help_ne_empty (topic : Topic) (long : Bool) : Help.text topic long ≠ "" := by
  cases topic with
  | scope s => cases s <;> cases long <;> decide +kernel
  | help => cases long <;> decide +kernel

theorem prints_run (args : List String) :
    (run env args).Prints fun status text => text ≠ "" ↔ status = 0 := by
  cases hargs : Request.ofArguments args with
  | error e =>
    rw [run, hargs]
    exact (Session.silent_printError _).prints_bind fun _ => .done (by simp)
  | ok request =>
    cases request with
    | run i =>
      rw [run_eq env hargs]
      refine (Session.silent_log _).prints_bind fun _ => ?_
      refine (prints_command env _).bind fun result text h => ?_
      cases result with
      | ok u => exact .done (by simpa using h)
      | error e =>
        exact (Session.silent_printError _).prints_bind fun _ => .done (by simpa using h)
    | help topic long =>
      rw [run, hargs]
      exact .tell (.done (by simpa [Output.printed] using help_ne_empty topic long))
    | version =>
      rw [run, hargs]
      have hversion : Help.versionText ≠ "" := by decide
      exact .tell (.done (by simpa [Output.printed] using hversion))

end

theorem ensures_reportDangling (env : Environment) (ds : List Dangling) (cwd : Location) (t : Tree) :
    (reportDangling env ds).Ensures cwd t fun _ t' => t' = t := by
  induction ds with
  | nil => exact fun _ => rfl
  | cons d ds ih => exact ih

theorem ensures_command (env : Environment) {c : Command}
    (hc : ∀ directory file, c ≠ .generate directory file) (cwd : Location) (t : Tree) :
    (c.run env).Ensures cwd t fun _ t' => t' = t := by
  cases c with
  | generate directory file => exact absurd rfl (hc directory file)
  | list file capability =>
    refine ((onlyReads_openRegistry env file).ensures cwd t).bind fun opened t' ht => ?_
    subst ht
    cases opened with
    | error e => exact fun _ => rfl
    | ok r => exact fun _ => rfl
  | check file =>
    refine ((onlyReads_openRegistry env file).ensures cwd t).bind fun opened t' ht => ?_
    subst ht
    cases opened with
    | error e => exact fun _ => rfl
    | ok r =>
      simp only
      split_ifs
      · exact fun _ => rfl
      · refine (ensures_reportDangling env _ cwd t').bind fun _ t' ht => ?_
        exact fun _ => ht

/-- A tree in which one path is rewritten, and the other one too if that is allowed. -/
def Rewritten (cwd : Location) (strategy listing : SlashPath) (both : Prop) (t t' : Tree) : Prop :=
  ∃ document between, t.Replaced cwd strategy.chars document between ∧
    (t' = between ∨ both ∧ ∃ text, between.Replaced cwd listing.chars text t')

section
variable {cwd : Location} {strategy listing : SlashPath} {both : Prop} {t t' : Tree}
  (h : Rewritten cwd strategy listing both t t')
include h

theorem Rewritten.sameDirectories : t.SameDirectories t' := by
  obtain ⟨document, between, hstrategy, rfl | ⟨-, text, hlisting⟩⟩ := h
  · exact hstrategy.sameDirectories
  · exact hstrategy.sameDirectories.trans hlisting.sameDirectories

theorem Rewritten.locate_of_node?_ne {other : Location} (hne : t'.node? other ≠ t.node? other) :
    t.locate cwd strategy.chars = .ok other ∨ both ∧ t.locate cwd listing.chars = .ok other := by
  obtain ⟨document, between, hstrategy, hlast⟩ := h
  obtain ⟨p, hp, -, hframe⟩ := hstrategy.node?
  by_cases ho : other = p
  · exact Or.inl (ho ▸ hp)
  · rcases hlast with rfl | ⟨hboth, text, hlisting⟩
    · exact absurd (hframe other ho) hne
    · obtain ⟨q, hq, -, hframe'⟩ := hlisting.node?
      by_cases ho' : other = q
      · exact Or.inr ⟨hboth, ho' ▸ hstrategy.sameDirectories.symm.locate_eq_ok hq⟩
      · exact absurd ((hframe' other ho').trans (hframe other ho)) hne

end

theorem tree_run_of_not_generate {env : Environment} {args : List String} {cwd : Location}
    {mishaps : List Mishap} {t : Tree}
    (h : ∀ directory file, ¬ Runs args (.generate directory file)) :
    ((run env args).runAmid cwd mishaps t).tree = t := by
  cases hargs : Request.ofArguments args with
  | error e =>
    rw [run, hargs]
    rfl
  | ok request =>
    cases request with
    | run i =>
      have hc : Runs args (i.command.getD usualCommand) := ⟨i, hargs, rfl⟩
      rw [(runAmid_run hc).1]
      exact ensures_command env (fun directory file he => h directory file (he ▸ hc)) cwd t mishaps
    | help topic long =>
      rw [run, hargs]
      rfl
    | version =>
      rw [run, hargs]
      rfl

theorem locate_artifact {cwd loc : Location} {t : Tree} {directory : SlashPath} {name : List Char}
    (hname : IsFileName name) (hl : t.locate cwd (directory.join name).chars = .ok loc) :
    ∃ outer, loc = name :: outer := by
  apply Tree.locate_eq_cons _ hl
  rw [hname.steps_join, List.getLast?_concat]

section
variable {env : Environment} {cwd : Location} {mishaps : List Mishap} {t : Tree}
  (hs : t.Lacks (temporaryName Strategy.fileName.toList env.process))
  (ha : t.Lacks (temporaryName Availability.fileName.toList env.process))
include hs ha

theorem tree_generate (directory : String) (file : Option String) :
    let o := (generate env directory file).runAmid cwd mishaps t
    o.tree = t ∨ (∃ r, ((openValidated env file).runAmid cwd mishaps t).result = .ok r) ∧
      Rewritten cwd ((env.resolve directory).joinString Strategy.fileName)
        ((env.resolve directory).joinString Availability.fileName) (o.result = .ok ()) t o.tree := by
  intro o
  cases hopen : ((openValidated env file).runAmid cwd mishaps t).result with
  | error e => exact Or.inl (runAmid_generate_of_error directory hopen).1
  | ok r =>
    obtain ⟨later, htree, hresult⟩ := runAmid_generate_of_ok directory hopen
    rcases Artifact.ensures_generate r (env.resolve directory) hs ha later with
      ⟨hr, between, hstrategy, hlisting⟩ | ⟨e, hr, ht⟩ | ⟨e, hr, hstrategy⟩
    · right
      rw [← htree] at hlisting
      exact ⟨⟨r, rfl⟩, _, between, hstrategy, Or.inr ⟨hresult.mpr ⟨_, hr⟩, _, hlisting⟩⟩
    · left
      exact htree.trans ht
    · right
      exact ⟨⟨r, rfl⟩, _, _, hstrategy, Or.inl htree⟩

theorem registry_file_generate (directory file : String) :
    let path := (env.resolve file).chars
    let o := (generate env directory (some file)).runAmid cwd mishaps t
    (∀ loc, t.locate cwd path = .ok loc → o.tree.node? loc = t.node? loc) ∧
      o.tree.read cwd path = t.read cwd path := by
  intro path o
  rcases tree_generate hs ha directory (some file) with ht | ⟨⟨r, hopen⟩, hw⟩
  · rw [show o.tree = t from ht]
    exact ⟨fun _ _ => rfl, rfl⟩
  · obtain ⟨hload, -⟩ := loaded_of_openValidated hopen
    obtain ⟨-, ⟨format, hformat⟩, bytes, hread⟩ := ensures_loadRegistry _ mishaps r hload
    obtain ⟨name, hlast, hname⟩ := Format.getLast?_steps hformat
    have hne : ∀ other, Format.ofName? other = none → name ≠ other := by
      intro other hother he
      rw [he, hother] at hname
      cases hname
    -- A place that has changed bears the name of an artifact, and the file of the registry does not.
    have hkept : ∀ loc, t.locate cwd path = .ok loc → o.tree.node? loc = t.node? loc := by
      intro loc hloc
      by_contra hchanged
      obtain ⟨outer, rfl⟩ := Tree.locate_eq_cons hlast hloc
      rcases hw.locate_of_node?_ne hchanged with hl | ⟨-, hl⟩
      · obtain ⟨outer', he⟩ := locate_artifact Artifact.isFileName_strategy hl
        exact hne _ (by decide) (List.cons.inj he).1
      · obtain ⟨outer', he⟩ := locate_artifact Artifact.isFileName_availability hl
        exact hne _ (by decide) (List.cons.inj he).1
    obtain ⟨loc, hloc, -⟩ := Files.bind_eq_ok_iff.mp hread
    refine ⟨hkept, Tree.read_congr_of_locate ?_ hkept⟩
    rw [hloc]
    exact hw.sameDirectories.locate_eq_ok hloc

end

/-- What a run changes and when it prints. It leaves the tree alone unless it generates from a
registry that is loaded and valid. Then it changes at most the two artifacts, and only the strategy
document if it fails. The registry file stays as it is. -/
theorem run_effects {env : Environment} {cwd : Location} {mishaps : List Mishap} {t : Tree}
    (hs : t.Lacks (temporaryName Strategy.fileName.toList env.process))
    (ha : t.Lacks (temporaryName Availability.fileName.toList env.process)) (args : List String) :
    let o := (run env args).runAmid cwd mishaps t
    ((∀ directory file, ¬ Runs args (.generate directory file)) → o.tree = t) ∧
    (∀ directory file, Runs args (.generate directory file) →
      (∀ f, file = some f →
        (∀ r, ((loadRegistry (env.resolve f)).runAmid cwd mishaps t).result = .ok r →
          r.validate ≠ .ok ()) → o.tree = t) ∧
      ∀ other, o.tree.node? other ≠ t.node? other →
        t.locate cwd ((env.resolve directory).joinString Strategy.fileName).chars = .ok other ∨
        o.result = 0 ∧
          t.locate cwd ((env.resolve directory).joinString Availability.fileName).chars =
            .ok other) ∧
    (∀ c f, Runs args c → c.registry? = some f →
      (∀ loc, t.locate cwd (env.resolve f).chars = .ok loc → o.tree.node? loc = t.node? loc) ∧
        o.tree.read cwd (env.resolve f).chars = t.read cwd (env.resolve f).chars) ∧
    (printed o.outputs ≠ "" ↔ o.result = 0) := by
  intro o
  have hstill : (∀ directory file, ¬ Runs args (.generate directory file)) → o.tree = t :=
    tree_run_of_not_generate
  have hgenerate : ∀ directory file, Runs args (.generate directory file) →
      o.tree = ((generate env directory file).runAmid cwd mishaps t).tree ∧
        (o.result = 0 ↔ ((generate env directory file).runAmid cwd mishaps t).result = .ok ()) :=
    fun directory file => runAmid_run
  have hprints : printed o.outputs ≠ "" ↔ o.result = 0 := (prints_run env args).runAmid cwd mishaps t
  clear_value o
  refine ⟨hstill, fun directory file hc => ?_, fun c f hc hf => ?_, hprints⟩
  · obtain ⟨htree, hresult⟩ := hgenerate directory file hc
    rw [htree, hresult]
    refine ⟨fun f hf hload => ?_, fun other hne => ?_⟩
    · subst hf
      rcases tree_generate hs ha directory (some f) with ht | ⟨⟨r, hopen⟩, -⟩
      · exact ht
      · obtain ⟨hr, hv⟩ := loaded_of_openValidated hopen
        exact absurd hv (hload r hr)
    · rcases tree_generate hs ha directory file with ht | ⟨-, hw⟩
      · exact absurd (congrArg (Tree.node? · other) ht) hne
      · exact hw.locate_of_node?_ne hne
  · cases c with
    | generate directory file =>
      obtain rfl : file = some f := hf
      rw [(hgenerate directory f hc).1]
      exact registry_file_generate hs ha directory f
    | list file capability =>
      rw [hstill fun _ _ hg => Command.noConfusion (hc.eq hg)]
      exact ⟨fun _ _ => rfl, rfl⟩
    | check file =>
      rw [hstill fun _ _ hg => Command.noConfusion (hc.eq hg)]
      exact ⟨fun _ _ => rfl, rfl⟩

theorem run_effects_full_disk :
    let tools : List Tool := [{ name := "crash", capability := .debug, available := true }]
    let env : Environment := ⟨"/work", 7, false, none⟩
    let t := (Tree.empty.makeDirectory ["work".toList]).put ["tools.json".toList, "work".toList]
      (.file (String.ofList (Json.writeFile tools)).toUTF8)
    let args := ["generate", "-r", "tools.json", "-o", "./"]
    let full : Files.Refusal := .other "No space left on device (os error 28)"
    let o := (run env args).runAmid ["work".toList] [none, none, none, none, none, some full] t
    let path := (env.resolve "tools.json").chars
    t.Lacks (temporaryName Strategy.fileName.toList env.process) ∧
      t.Lacks (temporaryName Availability.fileName.toList env.process) ∧
      Runs args (.generate "./" (some "tools.json")) ∧ o.result = 1 ∧
      o.tree.read ["work".toList] path = t.read ["work".toList] path ∧
      o.tree.node? [Availability.fileName.toList, "work".toList] = none ∧
      printed o.outputs = "" := by
  intro tools env t args full o path
  have hs : t.Lacks (temporaryName Strategy.fileName.toList env.process) := by decide
  have ha : t.Lacks (temporaryName Availability.fileName.toList env.process) := by decide
  have hruns : Runs args (.generate "./" (some "tools.json")) := ⟨_, by rfl, rfl⟩
  have hone : o.result = 1 := by decide +kernel
  obtain ⟨-, htree, hregistry, hprints⟩ := run_effects hs ha args
  have hlisting : t.node? [Availability.fileName.toList, "work".toList] = none := by decide
  refine ⟨hs, ha, hruns, hone, (hregistry _ _ hruns rfl).2, ?_, ?_⟩
  · by_contra hchanged
    rw [← hlisting] at hchanged
    rcases (htree _ _ hruns).2 _ hchanged with hl | ⟨hzero, -⟩
    · exact absurd hl (by decide +kernel)
    · exact absurd (hone.symm.trans hzero) (by decide)
  · by_contra hne
    exact absurd (hone.symm.trans (hprints.mp hne)) (by decide)

end CommandLine
end ToolRoster
