import ToolRoster.Proofs.CommandLine.Effects
import ToolRoster.Proofs.Files.WorkingDirectory
/-!
# What the confirmation shows

The artifacts are written below the directory as it resolves, and shown below the directory as it
was given. Whether a directory is absolute is decided before backslashes become slashes. So one that
starts with a backslash is looked for in the working directory and shown as if it were absolute. Any
other directory is shown where it is.
-/
namespace ToolRoster

theorem IsFileName.fileName?_join {name : List Char} (h : IsFileName name) (directory : SlashPath) :
    (directory.join name).fileName? = some name := by
  rw [SlashPath.fileName?_eq, h.chars_join, Files.names_pushName,
    Files.names_of_name h.not_slash h.ne_nil, List.getLast?_concat]

namespace CommandLine
open Files (Location Mishap Tree isAbsolute pushName)

/-- The text of a directory leads to the directory: it is absolute, or it starts a path where the
working directory is, whose text has no backslash either. -/
def Environment.Leads (env : Environment) (cwd : Location) (t : Tree) (directory : String) : Prop :=
  isAbsolute directory.toList = true ∨
    directory.toList.head? ≠ some '\\' ∧ '\\' ∉ env.workingDirectory.toList ∧
      isAbsolute env.workingDirectory.toList = true ∧
      t.locate cwd env.workingDirectory.toList = .ok cwd

/-- The paths lead to one file, which holds the text. -/
def Denotes (t : Tree) (cwd : Location) (shown written : SlashPath) (text : String) : Prop :=
  t.locate cwd shown.chars = t.locate cwd written.chars ∧
    t.read cwd shown.chars = .ok text.toUTF8

section
variable {env : Environment} {directory : String} {name : List Char} (hname : IsFileName name)
include hname

theorem chars_resolve_join (hrelative : isAbsolute directory.toList = false)
    (hback : '\\' ∉ env.workingDirectory.toList) :
    ((env.resolve directory).join name).chars =
      pushName env.workingDirectory.toList ((SlashPath.ofString directory).join name).chars := by
  have hresolve : (env.resolve directory).chars =
      pushName env.workingDirectory.toList (SlashPath.ofString directory).chars := by
    rw [Environment.resolve, hrelative, if_neg Bool.false_ne_true]
    exact SlashPath.normalize_pushName hback directory.toList
  rw [hname.chars_join, hname.chars_join, hresolve, Files.pushName_assoc]

theorem isAbsolute_shown (hrelative : isAbsolute directory.toList = false)
    (hstart : directory.toList.head? ≠ some '\\') :
    isAbsolute ((SlashPath.ofString directory).join name).chars = false := by
  rw [hname.isAbsolute_join]
  unfold isAbsolute at hrelative ⊢
  rw [SlashPath.ofString, SlashPath.ofChars, SlashPath.normalize, List.head?_map]
  cases hd : directory.toList.head? with
  | none => rfl
  | some c =>
    rw [hd] at hrelative hstart
    have hback : c ≠ '\\' := fun he => hstart (he ▸ rfl)
    simpa [hback] using hrelative

theorem ne_nil_shown : ((SlashPath.ofString directory).join name).chars ≠ [] := by
  intro he
  have hlast := hname.fileName?_join (.ofString directory)
  rw [SlashPath.fileName?_eq, he] at hlast
  contradiction

theorem denotes_of_read {cwd : Location} {t : Tree} (hleads : env.Leads cwd t directory)
    {text : String} (hr : t.read cwd ((env.resolve directory).join name).chars = .ok text.toUTF8) :
    Denotes t cwd ((SlashPath.ofString directory).join name) ((env.resolve directory).join name)
      text := by
  cases habsolute : isAbsolute directory.toList with
  | true =>
    have hresolve : env.resolve directory = .ofString directory := by
      rw [Environment.resolve, if_pos habsolute]
      rfl
    rw [hresolve] at hr ⊢
    exact ⟨rfl, hr⟩
  | false =>
    obtain ⟨hstart, hback, hroot, hcwd⟩ := hleads.resolve_left (by simp [habsolute])
    have hshown := isAbsolute_shown hname habsolute hstart
    have hne : ((SlashPath.ofString directory).join name).chars ≠ [] := ne_nil_shown hname
    -- What is shown is the end of what is written, and the working directory leads to where it starts.
    have hchars := chars_resolve_join hname habsolute hback
    rw [hchars] at hr
    obtain ⟨loc, hl, -⟩ := Files.bind_eq_ok_iff.mp hr
    refine ⟨?_, Tree.read_of_pushName hroot hcwd hshown hne hr⟩
    rw [hchars, hl]
    exact Tree.locate_of_pushName hroot hcwd hshown hne hl

end

theorem Environment.Leads.congr {env : Environment} {cwd : Location} {t t' : Tree}
    {directory : String} (h : env.Leads cwd t directory) (hsame : t.SameDirectories t') :
    env.Leads cwd t' directory := by
  rcases h with h | ⟨hstart, hback, hroot, hcwd⟩
  · exact Or.inl h
  · exact Or.inr ⟨hstart, hback, hroot, hsame.locate_eq_ok hcwd⟩

def confirmationText (env : Environment) (strategy listing : SlashPath) : String :=
  env.tick ++ " MCP tool detection complete\n" ++
    (env.tick ++ " Generated " ++ listing.toString ++ "\n") ++
    (env.tick ++ " Generated " ++ strategy.toString ++ "\n")

section
variable {env : Environment} {args : List String} {directory : String} {file : Option String}
  (hruns : Runs args (.generate directory file))
include hruns

theorem prints_run_generate : (run env args).Prints fun status text => status = 0 →
    text = confirmationText env ((SlashPath.ofString directory).joinString Strategy.fileName)
      ((SlashPath.ofString directory).joinString Availability.fileName) := by
  obtain ⟨i, hargs, hi⟩ := hruns
  rw [run_eq env hargs, hi]
  refine (Session.silent_log _).prints_bind fun _ => ?_
  refine (prints_generate env directory file).bind fun result text h => ?_
  rcases h with ⟨rfl, a, rfl, hs, hl⟩ | ⟨⟨e, rfl⟩, rfl⟩
  · have hstrategy := Artifact.isFileName_strategy.fileName?_join (env.resolve directory)
    have hlisting := Artifact.isFileName_availability.fileName?_join (env.resolve directory)
    refine .done fun _ => ?_
    simp only [confirmation, confirmedPath, hs, hl, SlashPath.joinString, hstrategy, hlisting,
      Option.getD_some, confirmationText, String.append_empty]
  · exact (Session.silent_printError _).prints_bind fun _ => .done fun h => by contradiction

theorem generated_of_success {cwd : Location} {t : Tree} (mishaps : List Mishap)
    (hzero : ((run env args).runAmid cwd mishaps t).result = 0) :
    ∃ r later a, ((openValidated env file).runAmid cwd mishaps t).result = .ok r ∧
      ((Artifact.generate env.process r (env.resolve directory)).runAmid cwd later t).result =
        .ok a ∧
      ((run env args).runAmid cwd mishaps t).tree =
        ((Artifact.generate env.process r (env.resolve directory)).runAmid cwd later t).tree := by
  have hrun : ((run env args).runAmid cwd mishaps t).tree =
      ((generate env directory file).runAmid cwd mishaps t).tree ∧ _ := runAmid_run hruns
  obtain ⟨htree, hstatus⟩ := hrun
  have hok : ((generate env directory file).runAmid cwd mishaps t).result = .ok () :=
    hstatus.mp hzero
  cases hopen : ((openValidated env file).runAmid cwd mishaps t).result with
  | error e =>
    rw [(runAmid_generate_of_error directory hopen).2] at hok
    cases hok
  | ok r =>
    obtain ⟨later, hlast, hwritten⟩ := runAmid_generate_of_ok directory hopen
    obtain ⟨a, ha⟩ := hwritten.mp hok
    exact ⟨r, later, a, rfl, ha, htree.trans hlast⟩

theorem written_of_success {cwd : Location} {t : Tree} (mishaps : List Mishap)
    (hzero : ((run env args).runAmid cwd mishaps t).result = 0) :
    let o := (run env args).runAmid cwd mishaps t
    ∃ r, ((openValidated env file).runAmid cwd mishaps t).result = .ok r ∧
      t.SameDirectories o.tree ∧
      o.tree.read cwd ((env.resolve directory).joinString Strategy.fileName).chars =
        .ok (Strategy.render r).toUTF8 ∧
      o.tree.read cwd ((env.resolve directory).joinString Availability.fileName).chars =
        .ok (Availability.render r).toUTF8 := by
  intro o
  obtain ⟨r, later, a, hopen, ha, htree⟩ := generated_of_success hruns mishaps hzero
  have hgenerated :=
    Artifact.ensures_generated env.process r (env.resolve directory) cwd t later a ha
  rw [← htree] at hgenerated
  exact ⟨r, hopen, hgenerated⟩

/-- A run that succeeds shows each artifact at the path of the file that it wrote, if the text of the
directory leads where it is meant to. -/
theorem confirmation_denotes {cwd : Location} {t : Tree} (hleads : env.Leads cwd t directory)
    (mishaps : List Mishap) :
    let o := (run env args).runAmid cwd mishaps t
    let strategy := (SlashPath.ofString directory).joinString Strategy.fileName
    let listing := (SlashPath.ofString directory).joinString Availability.fileName
    o.result = 0 → ∃ r, ((openValidated env file).runAmid cwd mishaps t).result = .ok r ∧
      printed o.outputs = confirmationText env strategy listing ∧
      Denotes o.tree cwd strategy ((env.resolve directory).joinString Strategy.fileName)
        (Strategy.render r) ∧
      Denotes o.tree cwd listing ((env.resolve directory).joinString Availability.fileName)
        (Availability.render r) := by
  intro o strategy listing hzero
  have hprinted : printed o.outputs = confirmationText env strategy listing :=
    (prints_run_generate hruns).runAmid cwd mishaps t hzero
  obtain ⟨r, hopen, hsame, hstrategy, hlisting⟩ := written_of_success hruns mishaps hzero
  have hleads' := hleads.congr hsame
  exact ⟨r, hopen, hprinted, denotes_of_read Artifact.isFileName_strategy hleads' hstrategy,
    denotes_of_read Artifact.isFileName_availability hleads' hlisting⟩

end

theorem confirmation_denotes_slashes :
    let env : Environment := ⟨"/work", 7, false, none⟩
    let t := Tree.empty.makeDirectory ["out".toList, "work".toList]
    let args := ["-v", "generate", "-o", "..\\work/./out//"]
    let o := (run env args).runAmid ["work".toList] [] t
    let listing := SlashPath.ofString "../work/./out//mcp-tools.txt"
    Runs args (.generate "..\\work/./out//" none) ∧
      env.Leads ["work".toList] t "..\\work/./out//" ∧ o.result = 0 ∧
      Denotes o.tree ["work".toList] listing
        ((env.resolve "..\\work/./out//").joinString Availability.fileName)
        (Availability.render .builtin) := by
  intro env t args o listing
  have hruns : Runs args (.generate "..\\work/./out//" none) := ⟨_, by rfl, rfl⟩
  have hleads : env.Leads ["work".toList] t "..\\work/./out//" :=
    Or.inr ⟨by decide, by decide, by decide, by decide⟩
  have hzero : o.result = 0 := by decide +kernel
  obtain ⟨r, hopen, -, -, hlisting⟩ := confirmation_denotes hruns hleads [] hzero
  obtain rfl : Registry.builtin = r :=
    Except.ok.inj (result_openValidated_none.symm.trans hopen)
  exact ⟨hruns, hleads, hzero, hlisting⟩

/-- A directory that starts with a backslash is shown where nothing has been written. -/
theorem confirmation_misleads :
    let env : Environment := ⟨"/work", 7, false, none⟩
    let t := Tree.empty.makeDirectory ["out".toList, "work".toList]
    let o := (run env ["generate", "-o", "\\out"]).runAmid ["work".toList] [] t
    let strategy := SlashPath.ofString "/out/mcp-strategy.md"
    let listing := SlashPath.ofString "/out/mcp-tools.txt"
    o.result = 0 ∧ printed o.outputs = confirmationText env strategy listing ∧
      o.tree.read ["work".toList] strategy.chars = .error .notFound ∧
      o.tree.read ["work".toList] listing.chars = .error .notFound ∧
      o.tree.read ["work".toList] "/work//out/mcp-tools.txt".toList =
        .ok (Availability.render .builtin).toUTF8 := by
  intro env t o strategy listing
  have hruns : Runs ["generate", "-o", "\\out"] (.generate "\\out" none) := ⟨_, by rfl, rfl⟩
  have hzero : o.result = 0 := by decide +kernel
  have hprinted : printed o.outputs = confirmationText env strategy listing :=
    (prints_run_generate hruns).runAmid ["work".toList] [] t hzero
  obtain ⟨r, hopen, -, -, hlisting⟩ := written_of_success hruns [] hzero
  obtain rfl : Registry.builtin = r :=
    Except.ok.inj (result_openValidated_none.symm.trans hopen)
  have hpath : ((env.resolve "\\out").joinString Availability.fileName).chars =
      "/work//out/mcp-tools.txt".toList := by decide
  rw [hpath] at hlisting
  exact ⟨hzero, hprinted, by decide +kernel, by decide +kernel, hlisting⟩

end CommandLine
end ToolRoster
