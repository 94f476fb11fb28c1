import ToolRoster.Proofs.Artifact.Generation
import ToolRoster.Proofs.Files.Lockstep
/-!
# Generating again

Generating does not look at the artifacts that are there. So their content and whether they exist
decide nothing, and a second run ends like the first and finds done what it does.
-/
namespace ToolRoster
open Files (Location Mishap Plain Steady Tree start steps temporary temporaryHome temporaryName)

namespace Files.Tree
variable {t t' u : Tree} {cwd : Location} {path : List Char}

theorem Replaced.again {content : ByteArray} (h : t.Replaced cwd path content t')
    (h' : t'.Replaced cwd path content u) : u = t' := by
  have hsame := h.sameDirectories
  obtain ⟨place, hp, rfl⟩ := h
  obtain ⟨place', hp', rfl⟩ := h'
  obtain rfl := Except.ok.inj ((hsame.place_eq_ok hp).symm.trans hp')
  exact put_put t place _

theorem Replaced.again_both {path other : SlashPath} {content content' : ByteArray}
    {between between' : Tree} (hne : lentName path.chars ≠ lentName other.chars)
    (hfirst : t.Replaced cwd path.chars content between)
    (hsecond : between.Replaced cwd other.chars content' t')
    (hfirst' : t'.Replaced cwd path.chars content between')
    (hsecond' : between'.Replaced cwd other.chars content' u) : u = t' := by
  have hsame := hfirst.sameDirectories
  have hsame' := hsecond.sameDirectories
  have hsame'' := hfirst'.sameDirectories
  obtain ⟨p, hp, rfl⟩ := hfirst
  obtain ⟨q, hq, rfl⟩ := hsecond
  obtain ⟨p', hp', rfl⟩ := hfirst'
  obtain ⟨q', hq', rfl⟩ := hsecond'
  obtain rfl := Except.ok.inj (((hsame.trans hsame').place_eq_ok hp).symm.trans hp')
  obtain rfl := Except.ok.inj (((hsame'.trans hsame'').place_eq_ok hq).symm.trans hq')
  obtain ⟨outer, rfl⟩ := place_target hp
  obtain ⟨outer', rfl⟩ := place_target hq
  exact put_put_again t (fun h => hne (List.cons.inj h).1) _ _

end Files.Tree

section
variable {directory : SlashPath} {name : List Char} {cwd : Location} {t t' : Tree}
  (h : IsFileName name)
include h

theorem IsFileName.locate_join {loc : Location}
    (hl : t.locate cwd (directory.join name).chars = .ok loc) :
    ∃ outer, t.walk (start cwd directory.chars) (steps directory.chars) = .ok outer ∧
      t.node? outer = some .directory ∧ loc = name :: outer := by
  obtain ⟨u, -, hw⟩ := Files.bind_eq_ok_iff.mp hl
  rw [h.steps_join, h.start_join, Tree.walk_append] at hw
  obtain ⟨outer, houter, hw⟩ := Files.bind_eq_ok_iff.mp hw
  obtain ⟨hd, next, hnext, hw⟩ := (Tree.walk_cons_eq_ok_iff _ _ _ _ _).mp hw
  obtain rfl := Except.ok.inj hw
  exact ⟨outer, houter, hd, Tree.target_down_eq hnext⟩

theorem IsFileName.steps_temporaryHome :
    ∃ k, steps directory.chars =
      steps (temporaryHome (directory.join name).chars) ++ List.replicate k .stay := by
  have hlast : (steps (directory.join name).chars).getLast? = some (.down name) := by
    rw [h.steps_join, List.getLast?_concat]
  cases hp : Files.parentOf (directory.join name).chars with
  | none => exact absurd hlast (Files.getLast?_steps_of_parentOf_none hp name)
  | some lent =>
    obtain ⟨own, parent⟩ := lent
    obtain ⟨-, j, k, hsteps⟩ := Files.steps_of_parentOf_some hp
    rw [hsteps, ← List.singleton_append, ← List.append_assoc] at hlast
    obtain ⟨rfl, -⟩ := Files.getLast?_append_stays _ k name hlast
    rw [h.steps_join, List.replicate_zero] at hsteps
    refine ⟨j, ?_⟩
    rw [temporaryHome, hp]
    exact (List.append_inj' hsteps rfl).1

theorem IsFileName.steady_join {hidden : Location → Prop} {outer : Location}
    (hw : t.walk (start cwd directory.chars) (steps directory.chars) = .ok outer)
    (hd : t.node? outer = some .directory)
    (hhidden : ∀ loc, hidden loc → t.node? loc ≠ some .directory) (process : Nat) :
    Steady hidden t cwd (directory.join name).chars ∧
      Steady hidden t cwd (temporary process (directory.join name).chars) := by
  constructor
  · intro place hplace hplacehidden
    rw [h.steps_join, h.start_join, List.dropLast_concat] at hplace
    exact hhidden place hplacehidden (Tree.directory_of_mem_trail hw hd hplace)
  · intro place hplace hplacehidden
    rw [Files.steps_temporary, Files.start_temporary, h.start_join, List.dropLast_concat] at hplace
    obtain ⟨k, hk⟩ : ∃ k, steps directory.chars = _ ++ List.replicate k .stay :=
      h.steps_temporaryHome
    rw [hk, Tree.walk_append] at hw
    obtain ⟨home, hhome, hstays⟩ := Files.bind_eq_ok_iff.mp hw
    obtain rfl := Tree.eq_of_walk_stays hstays
    exact hhidden place hplacehidden (Tree.directory_of_mem_trail hhome hd hplace)

end

namespace Artifact
variable {process : Nat} {directory : SlashPath} {cwd : Location} {t t' : Tree}

/-- A place that the path of an artifact leads to, if no directory stands there. -/
def IsTarget (directory : SlashPath) (cwd : Location) (t : Tree) (loc : Location) : Prop :=
  t.node? loc ≠ some .directory ∧
    (t.locate cwd (directory.joinString Strategy.fileName).chars = .ok loc ∨
      t.locate cwd (directory.joinString Availability.fileName).chars = .ok loc)

theorem IsTarget.eq_cons {loc : Location} (h : IsTarget directory cwd t loc) :
    ∃ outer, t.walk (start cwd directory.chars) (steps directory.chars) = .ok outer ∧
      t.node? outer = some .directory ∧
      ∃ name : List Char, name.head? ≠ some '.' ∧ loc = name :: outer := by
  rcases h.2 with hl | hl
  · obtain ⟨outer, hw, hd, hloc⟩ := isFileName_strategy.locate_join hl
    exact ⟨outer, hw, hd, _, by decide, hloc⟩
  · obtain ⟨outer, hw, hd, hloc⟩ := isFileName_availability.locate_join hl
    exact ⟨outer, hw, hd, _, by decide, hloc⟩

theorem steady_target {name : List Char} (hname : IsFileName name) (process : Nat) :
    Steady (IsTarget directory cwd t) t cwd (directory.join name).chars ∧
      Steady (IsTarget directory cwd t) t cwd (temporary process (directory.join name).chars) := by
  by_cases hex : ∃ loc, IsTarget directory cwd t loc
  · obtain ⟨loc, htarget⟩ := hex
    obtain ⟨outer, hw, hd, -⟩ := htarget.eq_cons
    exact hname.steady_join hw hd (fun _ hloc => hloc.1) process
  · exact ⟨fun place _ hplace => hex ⟨place, hplace⟩, fun place _ hplace => hex ⟨place, hplace⟩⟩

theorem plain_temporary {name : List Char} (hname : IsFileName name) (process : Nat) :
    Plain (IsTarget directory cwd t) t cwd (temporary process (directory.join name).chars) := by
  refine ⟨(steady_target hname process).2, fun file hp htarget => ?_⟩
  obtain ⟨outer, rfl⟩ := Files.place_temporary hp
  obtain ⟨outer', -, -, own, hown, heq⟩ := htarget.eq_cons
  exact fileName_ne_temporaryName hown _ process (List.cons.inj heq).1.symm

theorem asks_logAll {allowed : Files.Call → Prop} (events : List Log.Event) :
    (logAll events).Asks allowed := by
  induction events with
  | nil => exact Session.asks_pure ()
  | cons e es ih => exact (Session.asks_log e).bind fun _ => ih

theorem asks_write {name : List Char} (hname : IsFileName name) (text : String) :
    (write process (directory.join name) text).Asks
      (Files.Call.Blind (IsTarget directory cwd t) t cwd) := by
  refine (Files.asks_writeChunks (plain_temporary hname process)
    (steady_target hname process).1 [text.toUTF8]).bind fun result => ?_
  cases result with
  | error e => exact Session.asks_pure _
  | ok u => exact (Session.asks_log _).bind fun _ => Session.asks_pure _

theorem asks_generate (r : Registry) :
    (generate process r directory).Asks
      (Files.Call.Blind (IsTarget directory cwd t) t cwd) := by
  refine (asks_logAll (strategyEvents r)).bind fun _ => ?_
  refine (asks_write isFileName_strategy (Strategy.render r)).bind fun strategy => ?_
  cases strategy with
  | error e => exact Session.asks_pure _
  | ok w =>
    refine (asks_write isFileName_availability (Availability.render r)).bind fun listing => ?_
    cases listing with
    | error e => exact Session.asks_pure _
    | ok w' => exact Session.asks_pure _

theorem generate_congr (process : Nat) (r : Registry) (mishaps : List Mishap)
    (h : t.AgreeOutside t' (IsTarget directory cwd t)) :
    let o := (generate process r directory).runAmid cwd mishaps t
    let o' := (generate process r directory).runAmid cwd mishaps t'
    o'.result = o.result ∧ ∀ a, o.result = .ok a → ∀ loc, o'.tree.node? loc = o.tree.node? loc := by
  intro o o'
  obtain ⟨hresult, hafter⟩ := Files.agreeOutside_run (asks_generate r) h mishaps
  refine ⟨hresult, fun a ha loc => ?_⟩
  obtain ⟨hsame, hstrategy, hlisting⟩ := ensures_generated process r directory cwd t mishaps a ha
  obtain ⟨hsame', hstrategy', hlisting'⟩ :=
    ensures_generated process r directory cwd t' mishaps a (hresult.trans ha)
  by_cases htarget : IsTarget directory cwd t loc
  · rcases htarget.2 with hl | hl
    · have hl' := hsame'.locate_eq_ok (h.same.locate_eq_ok hl)
      exact (Tree.node?_of_read hl' hstrategy').trans
        (Tree.node?_of_read (hsame.locate_eq_ok hl) hstrategy).symm
    · have hl' := hsame'.locate_eq_ok (h.same.locate_eq_ok hl)
      exact (Tree.node?_of_read hl' hlisting').trans
        (Tree.node?_of_read (hsame.locate_eq_ok hl) hlisting).symm
  · exact hafter.kept loc htarget

theorem agreeOutside_of_replaced {name : List Char} {content : ByteArray}
    (hname : name = Strategy.fileName.toList ∨ name = Availability.fileName.toList)
    (h : t.Replaced cwd (directory.join name).chars content t') :
    t.AgreeOutside t' (IsTarget directory cwd t) := by
  refine ⟨h.sameDirectories, fun loc hloc => ?_⟩
  obtain ⟨place, hp, rfl⟩ := h
  refine Tree.node?_put_of_ne t ?_ _
  rintro rfl
  refine hloc ⟨((Tree.place_eq_ok_iff _ _ _ _).mp hp).2.1, ?_⟩
  have hl := Tree.locate_of_place hp
  rcases hname with rfl | rfl
  · exact Or.inl hl
  · exact Or.inr hl

theorem IsTarget.of_same {loc : Location} (h : t.SameDirectories t')
    (hloc : IsTarget directory cwd t' loc) : IsTarget directory cwd t loc :=
  ⟨mt (h loc).mp hloc.1, hloc.2.imp h.symm.locate_eq_ok h.symm.locate_eq_ok⟩

theorem tree_generate_again (r : Registry) (mishaps : List Mishap)
    (hs : t.Lacks (temporaryName Strategy.fileName.toList process))
    (ha : t.Lacks (temporaryName Availability.fileName.toList process)) :
    let gen (u : Tree) := (generate process r directory).runAmid cwd mishaps u
    t.AgreeOutside (gen t).tree (IsTarget directory cwd t) ∧
      ((gen (gen t).tree).result = (gen t).result → (gen (gen t).tree).tree = (gen t).tree) := by
  intro gen
  rcases ensures_generate r directory hs ha mishaps with
    ⟨hr, between, hstrategy, hlisting⟩ | ⟨e, hr, ht⟩ | ⟨e, hr, hstrategy⟩
  · have hs' := lacks_of_replaced (.inr rfl) (lacks_of_replaced (.inl rfl) hs hstrategy) hlisting
    have ha' := lacks_of_replaced (.inr rfl) (lacks_of_replaced (.inl rfl) ha hstrategy) hlisting
    have hlisted := agreeOutside_of_replaced (Or.inr rfl) hlisting
    refine ⟨(agreeOutside_of_replaced (Or.inl rfl) hstrategy).trans
      (hlisted.mono fun _ => IsTarget.of_same hstrategy.sameDirectories), fun hresult => ?_⟩
    rcases ensures_generate r directory hs' ha' mishaps with
      ⟨-, between', hstrategy', hlisting'⟩ | ⟨e', hr', -⟩ | ⟨e', hr', -⟩
    · refine hstrategy.again_both ?_ hlisting hstrategy' hlisting'
      rw [SlashPath.joinString, isFileName_strategy.lentName_join, SlashPath.joinString,
        isFileName_availability.lentName_join]
      decide
    · exact absurd ((hr'.symm.trans hresult).trans hr) (by simp)
    · exact absurd ((hr'.symm.trans hresult).trans hr) (by simp)
  · have htree : (gen t).tree = t := ht
    rw [htree]
    exact ⟨⟨fun _ => Iff.rfl, fun _ _ => rfl⟩, fun _ => htree⟩
  · have hs' := lacks_of_replaced (.inl rfl) hs hstrategy
    have ha' := lacks_of_replaced (.inl rfl) ha hstrategy
    refine ⟨agreeOutside_of_replaced (Or.inl rfl) hstrategy, fun hresult => ?_⟩
    rcases ensures_generate r directory hs' ha' mishaps with
      ⟨hr', -⟩ | ⟨e', hr', -⟩ | ⟨e', -, hstrategy'⟩
    · exact absurd ((hr'.symm.trans hresult).trans hr) (by simp)
    · have herror := Except.error.inj ((hr'.symm.trans hresult).trans hr)
      exact absurd (FileError.io.inj herror).1 (strategy_ne_listing directory)
    · exact hstrategy.again hstrategy'

/-- Generating repeats itself. A second run that meets the same mishaps ends like the first and leaves
the tree as it is, also where the first has failed between its writes. And the result on a tree, with
the tree that a success leaves, is that on any other in which only files in the places of the artifacts
are others, more or fewer. -/
theorem generate_repeats (process : Nat) (r : Registry) (directory : SlashPath) (cwd : Location)
    (mishaps : List Mishap) (t : Tree) :
    let gen (u : Tree) := (generate process r directory).runAmid cwd mishaps u
    (t.Lacks (temporaryName Strategy.fileName.toList process) →
      t.Lacks (temporaryName Availability.fileName.toList process) →
      (gen (gen t).tree).result = (gen t).result ∧ (gen (gen t).tree).tree = (gen t).tree) ∧
    ∀ t', t.AgreeOutside t' (IsTarget directory cwd t) →
      (gen t').result = (gen t).result ∧
      ∀ a, (gen t).result = .ok a → ∀ loc, (gen t').tree.node? loc = (gen t).tree.node? loc := by
  intro gen
  refine ⟨fun hs ha => ?_, fun t' h => generate_congr process r mishaps h⟩
  obtain ⟨hagree, htree⟩ := tree_generate_again r mishaps hs ha
  have hresult := (generate_congr process r mishaps hagree).1
  exact ⟨hresult, htree hresult⟩

theorem generate_repeats_between :
    let t := Tree.empty.makeDirectory ["mcp-tools.txt".toList, "out".toList]
    let t' := t.put ["mcp-strategy.md".toList, "out".toList] (.file "old".toUTF8)
    let r := Registry.ofList [{ name := "crash", capability := .debug, available := true }]
    let gen (u : Tree) := (generate 12 r (.ofString "out")).runAmid [] [] u
    (gen t).result = .error (.io (.ofString "out/mcp-tools.txt") .isDirectory) ∧
      (gen t).tree ≠ t ∧ (gen (gen t).tree).result = (gen t).result ∧
      (gen (gen t).tree).tree = (gen t).tree ∧ (gen t').result = (gen t).result := by
  intro t t' r gen
  have hagree : t.AgreeOutside t' (IsTarget (.ofString "out") [] t) := by
    refine ⟨Tree.sameDirectories_put t (by decide) _, fun loc hloc => Tree.node?_put_of_ne t ?_ _⟩
    rintro rfl
    exact hloc ⟨by decide, Or.inl (by decide +kernel)⟩
  obtain ⟨hagain, hother⟩ := generate_repeats 12 r (.ofString "out") [] [] t
  obtain ⟨hresult, htree⟩ := hagain (by decide) (by decide)
  exact ⟨by decide +kernel, by decide +kernel, hresult, htree, (hother t' hagree).1⟩

end Artifact
end ToolRoster
