import ToolRoster.CommandLine.Run
import ToolRoster.Proofs.Artifact.Generation
import ToolRoster.Proofs.CommandLine.Vectors
import ToolRoster.Proofs.Registry.Fallbacks
import ToolRoster.Proofs.RegistryFile.ReadBack
/-!
# What the commands say of a registry file

Checking lists every fallback that is not registered, generating stops at the first one, and listing
looks at none. The verdicts of the first two agree on every file that loads.
-/
namespace ToolRoster.CommandLine

def errorLine (env : Environment) (e : CommandError) : String :=
  env.styled "1;31" "error" ++ ": " ++ e.message ++ "\n"

section
variable {env : Environment} {cwd : Files.Location} {tree : Files.Tree}

theorem errorLine_danglingReferences (count : Nat) :
    errorLine env (.danglingReferences count) =
      env.styled "1;31" "error" ++ ": " ++ toString count ++ " dangling fallback reference(s)\n" := by
  simp only [errorLine, CommandError.message, String.append_assoc]
  rfl

theorem errorLine_dangling (d : Dangling) :
    errorLine env (.roster (.dangling d)) = env.styled "1;31" "error" ++ ": Tool '" ++ d.tool ++
      "' declares fallback '" ++ d.fallback ++ "' which is not registered\n" := by
  have hmessage : (CommandError.roster (.dangling d)).message = "Tool '" ++ d.tool ++
      "' declares fallback '" ++ d.fallback ++ "' which is not registered" := rfl
  have hstart : ": Tool '" = ": " ++ "Tool '" := by decide
  have hend : "' which is not registered\n" = "' which is not registered" ++ "\n" := by decide
  rw [errorLine, hmessage, hstart, hend]
  simp only [String.append_assoc]

theorem aloud_run {args : List String} {c : Command} (h : Asks args c) :
    (run env args).aloud cwd tree = (c.run env >>= fun result =>
      match result with
      | .ok () => return 0
      | .error e => do
        Session.printError (errorLine env e)
        return 1).aloud cwd tree := by
  obtain ⟨verbose, hargs⟩ := h
  rw [run, hargs]
  exact (Session.quiet_log _).bind_eq

theorem aloud_run_of_ok {args : List String} {c : Command} {t : Files.Tree} {os : List Output}
    (h : Asks args c) (hc : (c.run env).aloud cwd tree = ⟨.ok (), t, os⟩) :
    (run env args).aloud cwd tree = ⟨0, t, os⟩ := by
  rw [aloud_run h, Session.aloud_bind_of_aloud hc]
  simp [Session.aloud, pure]

theorem aloud_run_of_error {args : List String} {c : Command} {t : Files.Tree} {os : List Output}
    {e : CommandError} (h : Asks args c) (hc : (c.run env).aloud cwd tree = ⟨.error e, t, os⟩) :
    (run env args).aloud cwd tree = ⟨1, t, os ++ [.err (errorLine env e)]⟩ := by
  rw [aloud_run h, Session.aloud_bind_of_aloud hc]
  rfl

theorem status_run_of_ok {args : List String} {c : Command} (h : Asks args c)
    (hc : ((c.run env).run cwd tree).result = .ok ()) :
    ((run env args).aloud cwd tree).result = 0 := by
  rw [aloud_run h, Session.result_aloud, Session.result_bind, hc]
  rfl

theorem status_run_of_error {args : List String} {c : Command} {e : CommandError} (h : Asks args c)
    (hc : ((c.run env).run cwd tree).result = .error e) :
    ((run env args).aloud cwd tree).result = 1 := by
  rw [aloud_run h, Session.result_aloud, Session.result_bind, hc]
  rfl

theorem aloud_reportDangling (ds : List Dangling) :
    (reportDangling env ds).aloud cwd tree =
      ⟨(), tree, ds.map fun d => .err (danglingText env d)⟩ := by
  induction ds with
  | nil => rfl
  | cons d ds ih =>
    have hsay : (Session.printError (danglingText env d)).aloud cwd tree =
        ⟨(), tree, [.err (danglingText env d)]⟩ := rfl
    rw [reportDangling, (Session.quiet_log _).bind_eq, Session.aloud_bind_of_aloud hsay, ih]
    rfl

section
variable {file : String} {r : Registry}
  (hload : ((loadRegistry (env.resolve file)).run cwd tree).result = .ok r)
include hload

theorem aloud_openRegistry : (openRegistry env (some file)).aloud cwd tree = ⟨.ok r, tree, []⟩ := by
  rw [openRegistry, (Session.quiet_log _).bind_eq, ← hload]
  exact (onlyReads_loadRegistry _).quiet cwd tree

theorem aloud_check : (check env (some file)).aloud cwd tree =
    if r.dangling = [] then
      ⟨.ok (), tree,
        [.out (env.tick ++ " " ++ toString r.size ++ " tools, all fallbacks resolve\n")]⟩
    else
      ⟨.error (.danglingReferences r.dangling.length), tree,
        r.dangling.map fun d => .err (danglingText env d)⟩ := by
  rw [check, Session.aloud_bind_of_aloud (aloud_openRegistry hload)]
  simp only [List.nil_append, List.isEmpty_iff]
  split
  · rfl
  · rw [Session.aloud_bind_of_aloud (aloud_reportDangling r.dangling)]
    simp [Session.aloud, pure]

theorem aloud_openValidated : (openValidated env (some file)).aloud cwd tree =
    ⟨match r.validate with
      | .ok () => .ok r
      | .error d => .error (.dangling d), tree, []⟩ := by
  rw [openValidated, Session.aloud_bind_of_aloud (aloud_openRegistry hload)]
  simp only [Option.isNone_some, Bool.false_eq_true, if_false, List.nil_append]
  cases r.validate <;> rfl

theorem aloud_generate_of_dangling {d : Dangling} (hd : r.validate = .error d)
    (directory : String) : (generate env directory (some file)).aloud cwd tree =
      ⟨.error (.roster (.dangling d)), tree, []⟩ := by
  have hopen := aloud_openValidated hload
  rw [hd] at hopen
  rw [generate, Session.aloud_bind_of_aloud hopen]
  rfl

theorem result_generate_of_dangling {d : Dangling} (hd : r.validate = .error d)
    (directory : String) : ((generate env directory (some file)).run cwd tree).result =
      .error (.roster (.dangling d)) := by
  rw [← Session.result_aloud, aloud_generate_of_dangling hload hd]

theorem result_generate_of_valid (hv : r.validate = .ok ()) (directory : String) :
    let result := ((generate env directory (some file)).run cwd tree).result
    result = .ok () ∨ ∃ path refusal, result = .error (.roster (.file (.io path refusal))) ∧
      (path = (env.resolve directory).joinString Strategy.fileName ∨
        path = (env.resolve directory).joinString Availability.fileName) := by
  intro result
  have hopen := aloud_openValidated hload
  rw [hv] at hopen
  have hok : ((openValidated env (some file)).run cwd tree).result = .ok r := by
    rw [← Session.result_aloud, hopen]
  have htree : ((openValidated env (some file)).run cwd tree).tree = tree := by
    rw [← Session.tree_aloud, hopen]
  have hresult : result = ((generate env directory (some file)).run cwd tree).result := rfl
  rw [generate, Session.result_bind, hok, htree, Session.result_bind] at hresult
  have hio := Artifact.ensures_error_generate env.process r (env.resolve directory) cwd tree []
  rw [Session.runAmid_nil] at hio
  cases hw : ((Artifact.generate env.process r (env.resolve directory)).run cwd tree).result with
  | error e =>
    obtain ⟨refusal, he⟩ := hio e hw
    right
    rw [hw] at hresult
    rcases he with rfl | rfl
    · exact ⟨_, refusal, hresult, Or.inl rfl⟩
    · exact ⟨_, refusal, hresult, Or.inr rfl⟩
  | ok a =>
    left
    rw [hw] at hresult
    exact hresult

theorem aloud_list (capability : Option Capability) :
    (list env (some file) capability).aloud cwd tree =
      ⟨.ok (), tree, [.out (Availability.render (filtered r capability))]⟩ := by
  rw [list, Session.aloud_bind_of_aloud (aloud_openRegistry hload)]
  rfl

theorem resolves_iff : r.Resolves ↔ r.unresolved = [] := by
  have hcoherent := (reachable_of_loadRegistry hload).coherent
  rw [← hcoherent.dangling_eq_nil_iff, hcoherent.dangling_eq]

theorem validate_eq_unresolved : r.validate = match r.unresolved.head? with
    | none => .ok ()
    | some d => .error d := by
  have hvalidate := r.validate_eq
  rw [(reachable_of_loadRegistry hload).coherent.dangling_eq] at hvalidate
  exact hvalidate

theorem validate_eq_ok_iff : r.validate = .ok () ↔ r.unresolved = [] :=
  (reachable_of_loadRegistry hload).coherent.validate_eq_ok_iff.trans (resolves_iff hload)

theorem result_generate_eq_dangling_iff (directory : String) (d : Dangling) :
    ((generate env directory (some file)).run cwd tree).result = .error (.roster (.dangling d)) ↔
      r.unresolved.head? = some d := by
  have hvalidate := validate_eq_unresolved hload
  cases hd : r.unresolved.head? with
  | none =>
    rw [hd] at hvalidate
    rcases result_generate_of_valid hload hvalidate directory with hr | ⟨_, _, hr, -⟩ <;>
      rw [hr] <;> simp
  | some first =>
    rw [hd] at hvalidate
    rw [result_generate_of_dangling hload hvalidate]
    simp

theorem aloud_run_check {args : List String} (h : Asks args (.check (some file))) :
    (run env args).aloud cwd tree = if r.unresolved = [] then
      ⟨0, tree, [.out (env.tick ++ " " ++ toString r.size ++ " tools, all fallbacks resolve\n")]⟩
    else
      ⟨1, tree, (r.unresolved.map fun d => .err (danglingText env d)) ++
        [.err (errorLine env (.danglingReferences r.unresolved.length))]⟩ := by
  have hcheck := aloud_check hload
  rw [(reachable_of_loadRegistry hload).coherent.dangling_eq] at hcheck
  split_ifs at hcheck ⊢ with hd
  · exact aloud_run_of_ok h hcheck
  · exact aloud_run_of_error h hcheck

theorem aloud_run_generate_of_dangling {args : List String} {directory : String} {d : Dangling}
    (h : Asks args (.generate directory (some file))) (hd : r.unresolved.head? = some d) :
    (run env args).aloud cwd tree = ⟨1, tree, [.err (errorLine env (.roster (.dangling d)))]⟩ := by
  have hvalidate := validate_eq_unresolved hload
  rw [hd] at hvalidate
  exact aloud_run_of_error h (aloud_generate_of_dangling hload hvalidate directory)

/-- Checking, validation and generating agree on a registry file that loads. A check succeeds exactly
when every declared fallback names a record; else it lists each that does not. Generating refuses the
file exactly when the check fails, for the first of these; otherwise only its two writes can fail.
Listing always succeeds. -/
theorem verdicts_agree :
    ((Request.ofArguments ["check", "-r", file]).isOk →
      Asks ["check", "-r", file] (.check (some file))) ∧
    (∀ directory, (Request.ofArguments ["generate", "-r", file, "-o", directory]).isOk →
      Asks ["generate", "-r", file, "-o", directory] (.generate directory (some file))) ∧
    ((Request.ofArguments ["list", "-r", file]).isOk →
      Asks ["list", "-r", file] (.list (some file) none)) ∧
    (∀ style text, '\x1b' ∉ text.toList → env.styled style text =
      if env.color then "\x1b[" ++ style ++ "m" ++ text ++ "\x1b[0m" else text) ∧
    ∀ checking, Asks checking (.check (some file)) →
      let c := (run env checking).aloud cwd tree
      let message (d : Dangling) := env.styled "31" "✗" ++ " " ++ env.styled "1" d.tool ++
        " falls back to '" ++ d.fallback ++ "', which is not registered\n"
      (c.result = 0 ↔ r.Resolves) ∧
      (c.result = 0 → c.outputs = [.out (env.styled "32" "✓" ++ " " ++
        toString r.records.length ++ " tools, all fallbacks resolve\n")]) ∧
      (c.result ≠ 0 → c.result = 1 ∧
        c.outputs = (r.unresolved.map fun d => .err (message d)) ++
          [.err (env.styled "1;31" "error" ++ ": " ++ toString r.unresolved.length ++
            " dangling fallback reference(s)\n")]) ∧
      (r.validate = .ok () ↔ c.result = 0) ∧
      (∀ generating directory, Asks generating (.generate directory (some file)) →
        let g := (run env generating).aloud cwd tree
        let result := ((generate env directory (some file)).run cwd tree).result
        (c.result = 1 ↔ ∃ d, result = .error (.roster (.dangling d))) ∧
        (∀ d, result = .error (.roster (.dangling d)) →
          r.unresolved.head? = some d ∧ c.outputs.head? = some (.err (message d)) ∧
            g = ⟨1, tree, [.err (env.styled "1;31" "error" ++ ": Tool '" ++ d.tool ++
              "' declares fallback '" ++ d.fallback ++ "' which is not registered\n")]⟩) ∧
        (c.result = 0 → (result = .ok () ∧ g.result = 0) ∨
          ∃ path refusal, result = .error (.roster (.file (.io path refusal))) ∧ g.result = 1 ∧
            (path = (env.resolve directory).joinString Strategy.fileName ∨
              path = (env.resolve directory).joinString Availability.fileName))) ∧
      ∀ listing capability, Asks listing (.list (some file) capability) →
        ((run env listing).aloud cwd tree).result = 0 := by
  refine ⟨asks_check, fun _ => asks_generate, asks_list, fun style _ => env.styled_of_notMem style,
    fun checking hc => ?_⟩
  intro c message
  have hcheck : c = _ := aloud_run_check hload hc
  have hzero : c.result = 0 ↔ r.unresolved = [] := by
    rw [hcheck]
    split_ifs with hd <;> simp [hd]
  have hone : c.result = 1 ↔ r.unresolved ≠ [] := by
    rw [hcheck]
    split_ifs with hd <;> simp [hd]
  refine ⟨hzero.trans (resolves_iff hload).symm, fun h => ?_, fun h => ⟨?_, ?_⟩,
    (validate_eq_ok_iff hload).trans hzero.symm, fun generating directory hg => ?_,
    fun listing capability hl => ?_⟩
  · rw [hcheck, if_pos (hzero.mp h)]
    rfl
  · exact hone.mpr (mt hzero.mpr h)
  · rw [hcheck, if_neg (mt hzero.mpr h), errorLine_danglingReferences]
    rfl
  · intro g result
    have hresult : ∀ d, result = .error (.roster (.dangling d)) ↔ r.unresolved.head? = some d :=
      result_generate_eq_dangling_iff hload directory
    refine ⟨?_, fun d hd => ?_, fun h => ?_⟩
    · rw [hone, exists_congr hresult, ← Option.isSome_iff_exists, List.isSome_head?]
    · have hhead := (hresult d).mp hd
      refine ⟨hhead, ?_, errorLine_dangling d ▸ aloud_run_generate_of_dangling hload hg hhead⟩
      obtain ⟨ds, hds⟩ := List.head?_eq_some_iff.mp hhead
      rw [hcheck, if_neg (by simp [hds]), hds]
      rfl
    · have hvalid := (validate_eq_ok_iff hload).mpr (hzero.mp h)
      rcases result_generate_of_valid hload hvalid directory with hr | ⟨path, refusal, hr, hpath⟩
      · exact Or.inl ⟨hr, status_run_of_ok hg hr⟩
      · exact Or.inr ⟨path, refusal, hr, status_run_of_error hg hr, hpath⟩
  · rw [aloud_run_of_ok hl (aloud_list hload capability)]

end

end

/-- Of three fallbacks one is declared further down, one is the tool's own name and one is missing. -/
theorem verdicts_agree_ghost :
    let tools : List Tool :=
      [{ name := "crash", capability := .debug, fallback := some "zen" },
        { name := "zen", capability := .planning, available := true, fallback := some "ghost" },
        { name := "loop", capability := .debug, fallback := some "loop" }]
    let env : Environment := ⟨"/work", 7, false, none⟩
    let tree := (Files.Tree.empty.makeDirectory ["work".toList]).put
      ["tools.json".toList, "work".toList] (.file (String.ofList (Json.writeFile tools)).toUTF8)
    let check := ["check", "-r", "tools.json"]
    let generating := ["generate", "-r", "tools.json", "-o", "out"]
    let r := Registry.ofList tools
    let c := (run env check).aloud ["work".toList] tree
    ((loadRegistry (env.resolve "tools.json")).run ["work".toList] tree).result = .ok r ∧
      Asks check (.check (some "tools.json")) ∧
      Asks generating (.generate "out" (some "tools.json")) ∧ c.result = 1 ∧
      c.outputs = [.err "✗ zen falls back to 'ghost', which is not registered\n",
        .err "error: 1 dangling fallback reference(s)\n"] ∧
      ((generate env "out" (some "tools.json")).run ["work".toList] tree).result =
        .error (.roster (.dangling ⟨"zen", "ghost"⟩)) ∧
      (run env generating).aloud ["work".toList] tree = ⟨1, tree,
        [.err "error: Tool 'zen' declares fallback 'ghost' which is not registered\n"]⟩ := by
  intro tools env tree check generating r c
  have hread : tree.read ["work".toList] (env.resolve "tools.json").chars =
      .ok (String.ofList (Json.writeFile tools)).toUTF8 :=
    Files.Tree.read_of_fileAt (Files.Tree.fileAt_put (by decide +kernel) _)
  have hload : ((loadRegistry (env.resolve "tools.json")).run ["work".toList] tree).result = .ok r :=
    result_loadRegistry_written (by decide) (by decide) (by decide +kernel) hread
  have hunresolved : r.unresolved = [⟨"zen", "ghost"⟩] := by decide +kernel
  obtain ⟨hasks, hasksGenerate, -, -, hagree⟩ := verdicts_agree hload
  have hcheck : Asks check (.check (some "tools.json")) := hasks (by decide +kernel)
  have hgenerate : Asks generating (.generate "out" (some "tools.json")) :=
    hasksGenerate "out" (by decide +kernel)
  obtain ⟨-, -, hstatus, hvalid, hgenerating, -⟩ := hagree check hcheck
  obtain ⟨hone, houtputs⟩ := hstatus fun h => absurd (hvalid.mpr h) (by decide +kernel)
  obtain ⟨hdangling, hfirst, -⟩ := hgenerating _ _ hgenerate
  obtain ⟨d, hd⟩ := hdangling.mp hone
  obtain ⟨hhead, -, hg⟩ := hfirst d hd
  rw [hunresolved, List.head?_cons, Option.some.injEq] at hhead
  subst hhead
  have hlines : c.outputs = [.err "✗ zen falls back to 'ghost', which is not registered\n",
      .err "error: 1 dangling fallback reference(s)\n"] := by
    rw [houtputs, hunresolved]
    decide +kernel
  have hrefusal : env.styled "1;31" "error" ++ ": Tool '" ++ "zen" ++ "' declares fallback '" ++
      "ghost" ++ "' which is not registered\n" =
        "error: Tool 'zen' declares fallback 'ghost' which is not registered\n" := by
    decide +kernel
  exact ⟨hload, hcheck, hgenerate, hone, hlines, hd, hrefusal ▸ hg⟩

end ToolRoster.CommandLine
