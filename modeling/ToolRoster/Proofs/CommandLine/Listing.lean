import ToolRoster.Proofs.Artifact.Bystanders
import ToolRoster.Proofs.CommandLine.Confirmation
import ToolRoster.Proofs.RegistryFile.Outcome
/-!
# The listing that is printed and the one that is written

Listing prints what generating writes from the same registry, and a registry file reads the same
before and after. The colours, the log and the process number of the two runs may differ.
-/
namespace ToolRoster.CommandLine
open Files (Location Mishap Tree)

section
variable {env env' : Environment} {cwd : Location} {t t' : Tree} {file : Option String} {r : Registry}

theorem openRegistry_congr (h : env'.workingDirectory = env.workingDirectory)
    (file : Option String) : openRegistry env' file = openRegistry env file := by
  cases file with
  | none => rfl
  | some f => simp only [openRegistry, Environment.resolve, h]

theorem openRegistry_later {mishaps : List Mishap} (hkeeps : KeepsFormatted t t')
    (h : ((openValidated env file).runAmid cwd mishaps t).result = .ok r) :
    ((openRegistry env file).run cwd t').result = .ok r := by
  cases file with
  | none => exact h
  | some f =>
    obtain ⟨hload, -⟩ := loaded_of_openValidated h
    obtain ⟨format, bytes, hp, hread, -⟩ := read_of_loadRegistry hload
    have hlater := loadRegistry_congr hload ((hkeeps.read_eq hp hread).trans hread.symm)
    rw [openRegistry, Session.result_bind]
    exact hlater

def listing : Except RosterError Registry → Attempt
  | .error e => return .error (.roster e)
  | .ok r => do
    Session.print (Availability.render r)
    return .ok ()

theorem list_eq (env : Environment) (file : Option String) :
    list env file none = openRegistry env file >>= listing := rfl

theorem run_list (h : ((openRegistry env file).run cwd t).result = .ok r) :
    let o := (list env file none).run cwd t
    o.result = .ok () ∧ o.tree = t ∧ printed o.outputs = Availability.render r := by
  intro o
  obtain ⟨hresult, htree, hprinted⟩ := (onlyReads_openRegistry env file).run_bind listing cwd t
  rw [← list_eq, h] at hresult htree hprinted
  exact ⟨hresult, htree, hprinted.trans ((printed_cons _ _).trans String.append_empty)⟩

theorem run_of_ok {args : List String} {c : Command} (hruns : Runs args c)
    (h : ((c.run env).run cwd t).result = .ok ()) :
    let o := (run env args).run cwd t
    let p := (c.run env).run cwd t
    o.result = 0 ∧ o.tree = p.tree ∧ printed o.outputs = printed p.outputs := by
  obtain ⟨i, hargs, rfl⟩ := hruns
  intro o p
  have hends := Session.run_bind cwd ((i.command.getD usualCommand).run env) (ending env) t
  simp only [h, ending, pure, Session.run_done, List.append_nil] at hends
  have ho : o = { p with result := 0, outputs := .log (startingEvent i.command) :: p.outputs } := by
    simp only [o, run_eq env hargs, Session.log, bind, Session.bind, Session.run, hends]
    rfl
  rw [ho]
  exact ⟨rfl, rfl, (printed_cons _ _).trans String.empty_append⟩

end

/-- What is printed as a listing is what a run that succeeded has written as one. Generating amid any
mishaps leaves a text in the listing's file, and listing the same registry before or after prints
this text and nothing else. -/
theorem listing_agrees {env env' : Environment}
    (hplace : env'.workingDirectory = env.workingDirectory) {generating listing : List String}
    {directory : String} {file : Option String} (hgenerates : Runs generating (.generate directory file))
    (hlists : Runs listing (.list file none)) (cwd : Location) (mishaps : List Mishap) (t : Tree) :
    let o := (run env generating).runAmid cwd mishaps t
    o.result = 0 → ∃ text : String,
      o.tree.read cwd ((env.resolve directory).joinString Availability.fileName).chars =
        .ok text.toUTF8 ∧
      ∀ tree, tree = t ∨ tree = o.tree →
        let l := (run env' listing).run cwd tree
        l.result = 0 ∧ l.tree = tree ∧ printed l.outputs = text := by
  intro o hzero
  obtain ⟨r, later, a, hopen, ha, htree⟩ := generated_of_success hgenerates mishaps hzero
  obtain ⟨-, -, hwritten⟩ :=
    Artifact.ensures_generated env.process r (env.resolve directory) cwd t later a ha
  have hkeeps := Artifact.ensures_keepsFormatted env.process r (env.resolve directory) cwd t later a ha
  rw [← htree] at hwritten hkeeps
  refine ⟨Availability.render r, hwritten, fun tree hwhen => ?_⟩
  have hkept : KeepsFormatted t tree := by
    rcases hwhen with rfl | rfl
    · exact KeepsFormatted.refl _
    · exact hkeeps
  have hlater : ((openRegistry env' file).run cwd tree).result = .ok r := by
    rw [openRegistry_congr hplace]
    exact openRegistry_later hkept hopen
  obtain ⟨hok, hsame, hprinted⟩ := run_list hlater
  obtain ⟨hstatus, hlast, hshown⟩ := run_of_ok hlists hok
  exact ⟨hstatus, hlast.trans hsame, hshown.trans hprinted⟩

theorem listing_agrees_file :
    let tools : List Tool := [{ name := "crash", capability := .debug, useCases := ["a \"dump\""] }]
    let env : Environment := ⟨"/work", 7, false, none⟩
    let env' : Environment := ⟨"/work", 8, true, some "trace"⟩
    let t := (Tree.empty.makeDirectory ["out".toList, "work".toList]).put
      ["tools.json".toList, "work".toList] (.file (String.ofList (Json.writeFile tools)).toUTF8)
    let o := (run env ["generate", "-r", "tools.json", "-o", "out"]).runAmid ["work".toList] [] t
    let l := (run env' ["-v", "list", "--registry", "tools.json"]).run ["work".toList] o.tree
    o.result = 0 ∧ l.result = 0 ∧ o.tree.read ["work".toList] "/work/out/mcp-tools.txt".toList =
      .ok (printed l.outputs).toUTF8 := by
  intro tools env env' t o l
  have hgenerates : Runs ["generate", "-r", "tools.json", "-o", "out"]
      (.generate "out" (some "tools.json")) := ⟨_, by rfl, rfl⟩
  have hlists : Runs ["-v", "list", "--registry", "tools.json"] (.list (some "tools.json") none) :=
    ⟨_, by rfl, rfl⟩
  have hzero : o.result = 0 := by decide +kernel
  obtain ⟨text, hread, hlisting⟩ :=
    listing_agrees (show env'.workingDirectory = env.workingDirectory from rfl) hgenerates hlists
      ["work".toList] [] t hzero
  obtain ⟨hstatus, -, hprinted⟩ := hlisting o.tree (Or.inr rfl)
  have hpath : ((env.resolve "out").joinString Availability.fileName).chars =
      "/work/out/mcp-tools.txt".toList := by decide
  rw [hpath, ← hprinted] at hread
  exact ⟨hzero, hstatus, hread⟩

end ToolRoster.CommandLine
