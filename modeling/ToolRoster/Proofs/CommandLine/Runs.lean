import ToolRoster.CommandLine.Run
import ToolRoster.Proofs.Files.Effects
import ToolRoster.Proofs.RegistryFile.Loading
/-!
# The parts of a run

A run of a command does what the command does. Generating opens a registry, which only reads, and
then writes the artifacts, on the tree of before and amid the mishaps that are left.
-/
namespace ToolRoster.CommandLine
open Files (Location Mishap Tree)

/-- The arguments ask for a command, by its name or by none. -/
def Runs (args : List String) (c : Command) : Prop :=
  ∃ i, Request.ofArguments args = .ok (.run i) ∧ i.command.getD usualCommand = c

theorem Runs.eq {args : List String} {c d : Command} (hc : Runs args c) (hd : Runs args d) :
    c = d := by
  obtain ⟨i, hi, rfl⟩ := hc
  obtain ⟨j, hj, rfl⟩ := hd
  rw [hi] at hj
  cases hj
  rfl

def Command.registry? : Command → Option String
  | generate _ file => file
  | list file _ => file
  | check file => file

section
variable (env : Environment)

def ending : Except CommandError Unit → Session Nat
  | .ok () => return 0
  | .error e => do
    Session.printError (env.styled "1;31" "error" ++ ": " ++ e.message ++ "\n")
    return 1

theorem run_eq {args : List String} {i : Invocation}
    (h : Request.ofArguments args = .ok (.run i)) : run env args =
      Session.log (startingEvent i.command) >>= fun _ =>
        (i.command.getD usualCommand).run env >>= ending env := by
  rw [run, h]
  rfl

def validating : Except RosterError Registry → Session (Except RosterError Registry)
  | .error e => return .error e
  | .ok r =>
    match r.validate with
    | .ok () => return .ok r
    | .error d => return .error (.dangling d)

theorem openValidated_eq (file : String) : openValidated env (some file) =
    Session.log (registryEvent (env.resolve file)) >>= fun _ =>
      loadRegistry (env.resolve file) >>= validating := by
  simp only [openValidated, openRegistry, bind_assoc]
  rfl

def confirming (directory : String) : Except FileError Artifact.Artifacts → Attempt
  | .error e => return .error (.roster (.file e))
  | .ok a => do
    Session.log (artifactsEvent a)
    Session.print (confirmation env directory a)
    return .ok ()

def writing (directory : String) : Except RosterError Registry → Attempt
  | .error e => return .error (.roster e)
  | .ok r => Artifact.generate env.process r (env.resolve directory) >>= confirming env directory

theorem generate_eq (directory : String) (file : Option String) :
    generate env directory file = openValidated env file >>= writing env directory := rfl

theorem onlyReads_openRegistry (file : Option String) : (openRegistry env file).OnlyReads := by
  cases file with
  | none => exact Session.onlyReads_pure _
  | some f =>
    refine (Session.onlyReads_log _).bind fun _ => ?_
    exact onlyReads_loadRegistry (env.resolve f)

theorem onlyReads_validating (loaded : Except RosterError Registry) :
    (validating loaded).OnlyReads := by
  cases loaded with
  | error e => exact Session.onlyReads_pure _
  | ok r =>
    simp only [validating]
    split
    · exact Session.onlyReads_pure _
    · exact Session.onlyReads_pure _

theorem onlyReads_openValidated (file : Option String) : (openValidated env file).OnlyReads := by
  cases file with
  | none => exact Session.onlyReads_pure _
  | some f =>
    rw [openValidated_eq]
    refine (Session.onlyReads_log _).bind fun _ => ?_
    exact (onlyReads_loadRegistry (env.resolve f)).bind onlyReads_validating

end

section
variable {env : Environment} {cwd : Location} {mishaps : List Mishap} {t : Tree}

theorem result_openValidated_none :
    ((openValidated env none).runAmid cwd mishaps t).result = .ok .builtin := rfl

theorem loaded_of_openValidated {file : String} {r : Registry}
    (h : ((openValidated env (some file)).runAmid cwd mishaps t).result = .ok r) :
    ((loadRegistry (env.resolve file)).runAmid cwd mishaps t).result = .ok r ∧
      r.validate = .ok () := by
  rw [openValidated_eq, Session.runAmid_log_bind] at h
  simp only at h
  obtain ⟨later, hresult, -⟩ :=
    Session.runAmid_rest cwd (loadRegistry (env.resolve file)) validating mishaps t
  rw [h] at hresult
  generalize ((loadRegistry (env.resolve file)).runAmid cwd mishaps t).result = loaded at hresult ⊢
  cases loaded with
  | error e => simp [validating] at hresult
  | ok s =>
    cases hv : s.validate with
    | error d => simp [validating, hv] at hresult
    | ok u =>
      simp only [validating, hv, Session.runAmid_pure, Except.ok.injEq] at hresult
      exact ⟨congrArg _ hresult.symm, hresult ▸ hv⟩

theorem runAmid_run {args : List String} {c : Command} (h : Runs args c) :
    let o := (run env args).runAmid cwd mishaps t
    let p := (c.run env).runAmid cwd mishaps t
    o.tree = p.tree ∧ (o.result = 0 ↔ p.result = .ok ()) := by
  obtain ⟨i, hargs, rfl⟩ := h
  intro o p
  obtain ⟨later, hresult, htree⟩ := Session.runAmid_rest cwd
    ((i.command.getD usualCommand).run env) (ending env) mishaps t
  have hlast : o.result = ((ending env p.result).runAmid cwd later p.tree).result ∧
      o.tree = ((ending env p.result).runAmid cwd later p.tree).tree := by
    simp only [o, run_eq env hargs, Session.runAmid_log_bind]
    exact ⟨hresult, htree⟩
  rw [hlast.1, hlast.2]
  cases p.result with
  | ok u => simp [ending, Session.runAmid, pure]
  | error e => simp [ending, Session.runAmid, Session.printError, bind, Session.bind, pure]

section
variable (directory : String) {file : Option String}

theorem runAmid_generate_of_error {e : RosterError}
    (h : ((openValidated env file).runAmid cwd mishaps t).result = .error e) :
    let o := (generate env directory file).runAmid cwd mishaps t
    o.tree = t ∧ o.result = .error (.roster e) := by
  intro o
  obtain ⟨later, hresult, htree⟩ :=
    Session.runAmid_rest cwd (openValidated env file) (writing env directory) mishaps t
  rw [h, (onlyReads_openValidated env file).ensures cwd t mishaps, ← generate_eq, writing,
    Session.runAmid_pure] at hresult htree
  exact ⟨htree, hresult⟩

theorem runAmid_generate_of_ok {r : Registry}
    (h : ((openValidated env file).runAmid cwd mishaps t).result = .ok r) :
    let o := (generate env directory file).runAmid cwd mishaps t
    ∃ later, let g := (Artifact.generate env.process r (env.resolve directory)).runAmid cwd later t
      o.tree = g.tree ∧ (o.result = .ok () ↔ ∃ a, g.result = .ok a) := by
  intro o
  obtain ⟨later, hresult, htree⟩ :=
    Session.runAmid_rest cwd (openValidated env file) (writing env directory) mishaps t
  rw [h, (onlyReads_openValidated env file).ensures cwd t mishaps, ← generate_eq, writing]
    at hresult htree
  obtain ⟨last, hresult', htree'⟩ := Session.runAmid_rest cwd
    (Artifact.generate env.process r (env.resolve directory)) (confirming env directory) later t
  refine ⟨later, ?_⟩
  intro g
  have hlast : o.result = ((confirming env directory g.result).runAmid cwd last g.tree).result ∧
      o.tree = ((confirming env directory g.result).runAmid cwd last g.tree).tree :=
    ⟨hresult.trans hresult', htree.trans htree'⟩
  rw [hlast.1, hlast.2]
  cases g.result with
  | error e => simp [confirming, Session.runAmid, pure]
  | ok a => simp [confirming, Session.runAmid, Session.log, Session.print, bind, Session.bind, pure]

end

end
end ToolRoster.CommandLine
