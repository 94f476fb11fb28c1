import ToolRoster.Json.Writer
import ToolRoster.Proofs.CommandLine.Runs
import ToolRoster.Proofs.CommandLine.Verbose
/-!
# Logging and the rest of a run

A filter holds back log events and nothing else, and neither the verbose switch nor the setting of the
environment decides anything but the filter. So apart from its log a run is the same whatever is
logged.
-/
namespace ToolRoster

def Output.passes (filter : Log.Filter) : Output → Bool
  | out _ => true
  | err _ => true
  | log e => filter.shows e

def Output.complained : Output → String
  | err text => text
  | _ => ""

def complained (outputs : List Output) : String := String.join (outputs.map Output.complained)

theorem complained_cons (o : Output) (os : List Output) :
    complained (o :: os) = o.complained ++ complained os := by
  simp [complained]

theorem join_passing {text : Output → String} (hlog : ∀ e, text (.log e) = "") (filter : Log.Filter)
    (os : List Output) :
    String.join ((os.filter (Output.passes filter)).map text) = String.join (os.map text) := by
  induction os with
  | nil => rfl
  | cons o os ih =>
    cases o with
    | out s => simp [List.filter_cons, Output.passes, ih]
    | err s => simp [List.filter_cons, Output.passes, ih]
    | log e =>
      by_cases he : filter.shows e
      · simp [Output.passes, ih, he]
      · simp [Output.passes, ih, he, hlog]

theorem printed_passing (filter : Log.Filter) (os : List Output) :
    printed (os.filter (Output.passes filter)) = printed os :=
  join_passing (fun _ => rfl) filter os

theorem complained_passing (filter : Log.Filter) (os : List Output) :
    complained (os.filter (Output.passes filter)) = complained os :=
  join_passing (fun _ => rfl) filter os

namespace CommandLine
open Files (Location Mishap Tree)

def Environment.withLog (env : Environment) (setting : Option String) : Environment :=
  { env with logSetting := setting }

/-- What is seen of a run by someone who passes over the log lines. -/
structure Seen where
  status : Nat
  tree : Tree
  standard : String
  error : String

def seen (env : Environment) (args : List String) (cwd : Location) (mishaps : List Mishap)
    (t : Tree) : Seen :=
  let o := (run env args).runAmid cwd mishaps t
  let shown := o.outputs.filter (Output.passes (env.logFilter args))
  ⟨o.result, o.tree, printed shown, complained shown⟩

section
variable (env : Environment) (setting : Option String)

theorem reportDangling_withLog (ds : List Dangling) :
    reportDangling (env.withLog setting) ds = reportDangling env ds := by
  induction ds with
  | nil => rfl
  | cons d ds ih =>
    rw [reportDangling, ih]
    rfl

theorem check_withLog (file : Option String) :
    check (env.withLog setting) file = check env file := by
  simp only [check, reportDangling_withLog]
  rfl

theorem command_withLog (c : Command) : c.run (env.withLog setting) = c.run env := by
  cases c with
  | generate directory file => rfl
  | list file capability => rfl
  | check file => exact check_withLog env setting file

theorem run_withLog (args : List String) : run (env.withLog setting) args = run env args := by
  cases h : Request.ofArguments args with
  | error e => simp only [run, h]
  | ok request =>
    cases request with
    | run i =>
      rw [run_eq _ h, run_eq _ h, command_withLog]
      rfl
    | help topic long => simp only [run, h]
    | version => simp only [run, h]

end

section
variable (env : Environment) (args : List String) (cwd : Location) (mishaps : List Mishap) (t : Tree)

theorem seen_eq : seen env args cwd mishaps t =
    let o := (run env args).runAmid cwd mishaps t
    ⟨o.result, o.tree, printed o.outputs, complained o.outputs⟩ := by
  simp only [seen, printed_passing, complained_passing]

theorem seen_withLog (setting : Option String) :
    seen (env.withLog setting) args cwd mishaps t = seen env args cwd mishaps t := by
  rw [seen_eq, seen_eq, run_withLog]

theorem seen_of_runs {args args' : List String} {c : Command} (h : Runs args c) (h' : Runs args' c) :
    seen env args cwd mishaps t = seen env args' cwd mishaps t := by
  obtain ⟨i, hi, hc⟩ := h
  obtain ⟨j, hj, hc'⟩ := h'
  rw [seen_eq, seen_eq, run_eq env hi, run_eq env hj, hc, hc']
  simp only [Session.runAmid_log_bind, printed_cons, complained_cons, Output.printed,
    Output.complained]

end

theorem Runs.verbose {args : List String} {i : Invocation}
    (h : Request.ofArguments args = .ok (.run i)) (hi : i.verbose = false) :
    Runs args (i.command.getD usualCommand) ∧ Runs ("-v" :: args) (i.command.getD usualCommand) :=
  ⟨⟨i, h, rfl⟩, ⟨_, ofArguments_verbose h hi, rfl⟩⟩

/-- The log does not interfere. Arguments without the verbose switch mean the same with the switch in
front, and whatever is set about the log in either run, the runs end alike, leave the same tree and
say the same besides log lines. A run without arguments is one that is told to generate. -/
theorem log_does_not_interfere (env : Environment) (cwd : Location) (mishaps : List Mishap)
    (t : Tree) {args : List String} {i : Invocation}
    (h : Request.ofArguments args = .ok (.run i)) (hi : i.verbose = false)
    (setting setting' : Option String) :
    Request.ofArguments ("-v" :: args) = .ok (.run { i with verbose := true }) ∧
      seen (env.withLog setting') ("-v" :: args) cwd mishaps t =
        seen (env.withLog setting) args cwd mishaps t ∧
      seen (env.withLog setting') [] cwd mishaps t =
        seen (env.withLog setting) ["generate"] cwd mishaps t := by
  obtain ⟨hplain, hverbose⟩ := Runs.verbose h hi
  have hnone : Runs [] usualCommand := ⟨_, rfl, rfl⟩
  have hgenerate : Runs ["generate"] usualCommand := ⟨_, rfl, rfl⟩
  simp only [seen_withLog]
  exact ⟨ofArguments_verbose h hi, seen_of_runs env cwd mishaps t hverbose hplain,
    seen_of_runs env cwd mishaps t hnone hgenerate⟩

theorem log_does_not_interfere_check :
    let tools : List Tool := [{ name := "crash", capability := .debug, fallback := some "ghost" }]
    let env : Environment := ⟨"/work", 7, true, none⟩
    let t := (Tree.empty.makeDirectory ["work".toList]).put
      ["tools.json".toList, "work".toList] (.file (String.ofList (Json.writeFile tools)).toUTF8)
    let args := ["check", "-r", "tools.json"]
    let silenced := env.withLog (some "off")
    let garbled := env.withLog (some "=")
    Request.ofArguments args = .ok (.run ⟨false, some (.check (some "tools.json"))⟩) ∧
      silenced.logFilter args ≠ garbled.logFilter ("-v" :: args) ∧
      seen garbled ("-v" :: args) ["work".toList] [] t = seen silenced args ["work".toList] [] t := by
  intro tools env t args silenced garbled
  have hargs : Request.ofArguments args = .ok (.run ⟨false, some (.check (some "tools.json"))⟩) := by
    decide
  have hfilter : silenced.logFilter args ≠ garbled.logFilter ("-v" :: args) := by decide
  obtain ⟨-, hseen, -⟩ := log_does_not_interfere env ["work".toList] [] t hargs rfl (some "off")
    (some "=")
  exact ⟨hargs, hfilter, hseen⟩

end CommandLine
end ToolRoster
