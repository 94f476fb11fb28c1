import ToolRoster.Proofs.Yaml.Tokens
import ToolRoster.Yaml.Document
/-!
# Documents of compact JSON

The goals on the stack are met turn by turn, and the turns for a node leave the goals below it as
they were. No node has an anchor, so every event is a piece of the document as it stands.
-/
namespace ToolRoster.Yaml

/-- What a reader sees of an event that neither sets an anchor nor refers to one. -/
def Event.piece? : Event → Option Piece
  | .scalar ⟨none, tag⟩ style text => some (.scalar tag style text)
  | .sequence ⟨none, tag⟩ => some (.list tag)
  | .sequenceEnd => some .listEnd
  | .mapping ⟨none, tag⟩ => some (.map tag)
  | .mappingEnd => some .mapEnd
  | _ => none

def Shows (events : List Marked) (pieces : List Piece) : Prop :=
  events.map (fun m => m.event.piece?) = pieces.map some

theorem Shows.append {es es' : List Marked} {ps ps' : List Piece} (h : Shows es ps)
    (h' : Shows es' ps') : Shows (es ++ es') (ps ++ ps') := by
  rw [Shows, List.map_append, List.map_append, h, h']

/-- So many turns lead from the first goals and tokens to the last, with events for these pieces. -/
def Walked (c : Context) (n : Nat) (gs : List Goal) (ts : List Placed) (pieces : List Piece)
    (gs' : List Goal) (ts' : List Placed) : Prop :=
  ∃ events, Shows events pieces ∧ ∀ fuel, c.walk (fuel + n) gs ts =
    { c.walk fuel gs' ts' with events := events ++ (c.walk fuel gs' ts').events }

section
variable {c : Context} {gs gs' : List Goal} {ts ts' : List Placed} {ps ps' : List Piece} {n n' : Nat}

theorem Walked.refl : Walked c 0 gs ts [] gs ts := ⟨[], rfl, fun _ => rfl⟩

theorem Walked.trans {gs'' : List Goal} {ts'' : List Placed} (h : Walked c n gs ts ps gs' ts')
    (h' : Walked c n' gs' ts' ps' gs'' ts'') : Walked c (n' + n) gs ts (ps ++ ps') gs'' ts'' := by
  obtain ⟨es, hes, hwalk⟩ := h
  obtain ⟨es', hes', hwalk'⟩ := h'
  refine ⟨es ++ es', hes.append hes', fun fuel => ?_⟩
  rw [← Nat.add_assoc, hwalk, hwalk', List.append_assoc]

theorem walked_goals {g : Goal} {t : Placed} {goals : List Goal}
    (h : c.meet g t ts = .ok ⟨[], goals, ts'⟩) :
    Walked c 1 (g :: gs) (t :: ts) [] (goals ++ gs) ts' := by
  refine ⟨[], rfl, fun fuel => ?_⟩
  rw [Context.walk, h]

theorem walked_event {g : Goal} {t : Placed} {goals : List Goal} {e : Event} {m : Mark} {p : Piece}
    (h : c.meet g t ts = .ok ⟨[⟨e, m⟩], goals, ts'⟩) (hp : e.piece? = some p) :
    Walked c 1 (g :: gs) (t :: ts) [p] (goals ++ gs) ts' := by
  refine ⟨[⟨e, m⟩], ?_, fun fuel => ?_⟩
  · rw [Shows, List.map_singleton, List.map_singleton, hp]
  · rw [Context.walk, h]

end

def Goal.isNode : Goal → Bool
  | .blockNode _ => true
  | .flowNode => true
  | _ => false

def Token.opening? : Token → Option (Event × List Goal)
  | .scalar style text => some (.scalar {} style text, [])
  | .flowSequence => some (.sequence {}, [.flowItems true])
  | .flowMapping => some (.mapping {}, [.flowKey true])
  | _ => none

theorem meet_node (c : Context) {g : Goal} (hg : g.isNode) {t : Placed} {e : Event}
    {goals : List Goal} (ht : t.token.opening? = some (e, goals)) (r : List Placed) :
    c.meet g t r = .ok ⟨[⟨e, t.start⟩], goals, r⟩ := by
  obtain ⟨token, start, stop⟩ := t
  have hnode : ∀ block indentless, c.node block indentless (⟨token, start, stop⟩ :: r) =
      .ok ⟨[⟨e, start⟩], goals, r⟩ := by
    intro block indentless
    cases token with
    | scalar style text =>
      obtain ⟨rfl, rfl⟩ := Prod.mk.inj (Option.some.inj ht)
      rfl
    | flowSequence =>
      obtain ⟨rfl, rfl⟩ := Prod.mk.inj (Option.some.inj ht)
      rfl
    | flowMapping =>
      obtain ⟨rfl, rfl⟩ := Prod.mk.inj (Option.some.inj ht)
      rfl
    | _ => contradiction
  cases g with
  | blockNode indentless => exact hnode true indentless
  | flowNode => exact hnode false false
  | _ => contradiction

def Walks (toks : List Token) (pieces : List Piece) : Prop :=
  (∃ t r opening, toks = t :: r ∧ t.opening? = some opening) ∧
    ∀ (c : Context) (g : Goal) (gs : List Goal) (ts rest : List Placed), g.isNode →
      ts.map Placed.token = toks →
        ∃ n, n + 1 ≤ 2 * toks.length ∧ Walked c n (g :: gs) (ts ++ rest) pieces gs rest

theorem walks_scalar (style : Style) (text : List Char) :
    Walks [.scalar style text] [.scalar none style text] := by
  refine ⟨⟨_, _, _, rfl, rfl⟩, fun c g gs ts rest hg hts => ⟨1, Nat.le_refl 2, ?_⟩⟩
  obtain ⟨t, rfl, ht⟩ := List.map_eq_singleton_iff.mp hts
  have hopening : t.token.opening? = some (.scalar {} style text, []) := by rw [ht, Token.opening?]
  exact walked_event (meet_node c hg hopening rest) rfl

/-- These tokens are a part of a collection, whose goal comes back after it: the first part comes at
once, and any other after a comma. -/
def WalksPart (loop : Bool → Goal) (toks : List Token) (pieces : List Piece) : Prop :=
  ∀ (c : Context) (gs : List Goal) (ts rest : List Placed), ts.map Placed.token = toks →
    ∃ n, n ≤ 2 * toks.length ∧
      Walked c n (loop true :: gs) (ts ++ rest) pieces (loop false :: gs) rest ∧
        ∀ comma : Placed, comma.token = .flowEntry →
          Walked c n (loop false :: gs) (comma :: ts ++ rest) pieces (loop false :: gs) rest

structure Loop where
  goal : Bool → Goal
  start : Token
  stop : Token
  opening : Event
  closing : Event
  opener : Piece
  closer : Piece
  opens : start.opening? = some (opening, [goal true])
  opens_shown : opening.piece? = some opener
  closes : ∀ (c : Context) (first : Bool) (t : Placed) (r : List Placed), t.token = stop →
    c.meet (goal first) t r = .ok ⟨[⟨closing, t.start⟩], [], r⟩
  closes_shown : closing.piece? = some closer

theorem item_of_eq (c : Context) (first : Bool) (t : Placed) (r : List Placed) :
    c.item first t.token (t :: r) = .ok (t, r) := by
  simp [Context.item]

def listLoop : Loop where
  goal := .flowItems
  start := .flowSequence
  stop := .flowSequenceEnd
  opening := .sequence {}
  closing := .sequenceEnd
  opener := .list none
  closer := .listEnd
  opens := rfl
  opens_shown := rfl
  closes c first t r ht := by
    have hitem := item_of_eq c first t r
    rw [ht] at hitem
    simp only [Context.meet, hitem, ht, bind, Except.bind]
  closes_shown := rfl

def mapLoop : Loop where
  goal := .flowKey
  start := .flowMapping
  stop := .flowMappingEnd
  opening := .mapping {}
  closing := .mappingEnd
  opener := .map none
  closer := .mapEnd
  opens := rfl
  opens_shown := rfl
  closes c first t r ht := by
    have hitem := item_of_eq c first t r
    rw [ht] at hitem
    simp only [Context.meet, hitem, ht, bind, Except.bind]
  closes_shown := rfl

section
variable {β : Type} {tokens : β → List Token} {pieces : β → List Piece}

theorem walked_more {loop : Bool → Goal} {xs : List β}
    (hparts : ∀ x ∈ xs, WalksPart loop (tokens x) (pieces x))
    (c : Context) (gs : List Goal) {ts : List Placed} (rest : List Placed)
    (hts : ts.map Placed.token = (xs.map tokens).flatMap (.flowEntry :: ·)) :
    ∃ n, n ≤ 2 * ts.length ∧
      Walked c n (loop false :: gs) (ts ++ rest) (xs.flatMap pieces) (loop false :: gs) rest := by
  -- The goal of the collection comes back after each part, so the stack is the same in every case.
  induction xs generalizing ts with
  | nil =>
    obtain rfl : ts = [] := List.map_eq_nil_iff.mp hts
    exact ⟨0, Nat.le_refl 0, .refl⟩
  | cons x xs ih =>
    obtain ⟨hx, hxs⟩ := List.forall_mem_cons.mp hparts
    rw [List.map_cons, List.flatMap_cons] at hts
    obtain ⟨part, later, rfl, hpart, hlater⟩ := List.map_eq_append_iff.mp hts
    obtain ⟨comma, part, rfl, hcomma, hpart⟩ := List.map_eq_cons_iff.mp hpart
    obtain ⟨n, hn, -, hwalked⟩ := hx c gs part (later ++ rest) hpart
    obtain ⟨m, hm, hmore⟩ := ih hxs hlater
    refine ⟨m + n, ?_, ?_⟩
    · rw [← hpart, List.length_map] at hn
      rw [List.length_append, List.length_cons]
      omega
    · rw [List.append_assoc, List.flatMap_cons]
      exact (hwalked comma hcomma).trans hmore

theorem map_eq_enclosed {α γ : Type} {f : α → γ} {l : List α} {first last : γ} {inner : List γ}
    (h : l.map f = first :: inner ++ [last]) :
    ∃ x xs y, l = x :: xs ++ [y] ∧ f x = first ∧ xs.map f = inner ∧ f y = last := by
  rw [List.cons_append] at h
  obtain ⟨x, l, rfl, hx, h⟩ := List.map_eq_cons_iff.mp h
  obtain ⟨xs, ys, rfl, hxs, hys⟩ := List.map_eq_append_iff.mp h
  obtain ⟨y, rfl, hy⟩ := List.map_eq_singleton_iff.mp hys
  exact ⟨x, xs, y, rfl, hx, hxs, hy⟩

theorem walks_collection (loop : Loop) {xs : List β}
    (hparts : ∀ x ∈ xs, WalksPart loop.goal (tokens x) (pieces x)) :
    Walks (loop.start :: commas (xs.map tokens) ++ [loop.stop])
      (loop.opener :: xs.flatMap pieces ++ [loop.closer]) := by
  refine ⟨⟨_, _, _, rfl, loop.opens⟩, fun c g gs ts rest hg hts => ?_⟩
  obtain ⟨first, parts, last, rfl, hfirst, hinner, hstop⟩ := map_eq_enclosed hts
  have hopening : first.token.opening? = some (loop.opening, [loop.goal true]) := by
    rw [hfirst, loop.opens]
  have hopens : Walked c 1 (g :: gs) (first :: (parts ++ last :: rest)) [loop.opener]
      (loop.goal true :: gs) (parts ++ last :: rest) :=
    walked_event (meet_node c hg hopening _) loop.opens_shown
  have hcloses : ∀ isFirst,
      Walked c 1 (loop.goal isFirst :: gs) (last :: rest) [loop.closer] gs rest := fun isFirst =>
    walked_event (loop.closes c isFirst last rest hstop) loop.closes_shown
  have hparts : ∃ n isFirst, n ≤ 2 * parts.length ∧ Walked c n (loop.goal true :: gs)
      (parts ++ last :: rest) (xs.flatMap pieces) (loop.goal isFirst :: gs) (last :: rest) := by
    cases xs with
    | nil =>
      obtain rfl : parts = [] := List.map_eq_nil_iff.mp hinner
      exact ⟨0, true, Nat.le_refl 0, .refl⟩
    | cons x xs =>
      obtain ⟨hx, hxs⟩ := List.forall_mem_cons.mp hparts
      rw [List.map_cons, commas] at hinner
      obtain ⟨part, later, rfl, hpart, hlater⟩ := List.map_eq_append_iff.mp hinner
      obtain ⟨n, hn, hwalked, -⟩ := hx c gs part (later ++ last :: rest) hpart
      obtain ⟨m, hm, hmore⟩ := walked_more hxs c gs (last :: rest) hlater
      rw [← hpart, List.length_map] at hn
      refine ⟨m + n, false, ?_, ?_⟩
      · rw [List.length_append]
        omega
      · rw [List.append_assoc, List.flatMap_cons]
        exact hwalked.trans hmore
  obtain ⟨n, isFirst, hn, hwalked⟩ := hparts
  refine ⟨1 + n + 1, ?_, ?_⟩
  · rw [← hinner]
    simp only [List.length_append, List.length_cons, List.length_map, List.length_nil]
    omega
  · rw [List.cons_append, List.cons_append, List.append_assoc, List.singleton_append, Nat.add_assoc]
    exact (hopens.trans hwalked).trans (hcloses isFirst)

end

section
variable {c : Context} {u : Placed} {r : List Placed}

theorem item_first (close : Token) : c.item true close (u :: r) = .ok (u, r) := by
  simp [Context.item]

theorem item_comma {comma : Placed} (hcomma : comma.token = .flowEntry) {close : Token}
    (hclose : close ≠ .flowEntry) : c.item false close (comma :: u :: r) = .ok (u, r) := by
  simp [Context.item, hcomma, hclose.symm]

theorem meet_flowItems {first : Bool} {t : Placed} {ts : List Placed}
    (hitem : c.item first .flowSequenceEnd (t :: ts) = .ok (u, r)) {opening : Event × List Goal}
    (hu : u.token.opening? = some opening) :
    c.meet (.flowItems first) t ts = .ok ⟨[], [.flowNode, .flowItems false], u :: r⟩ := by
  simp only [Context.meet, hitem, bind, Except.bind]
  cases hu' : u.token with
  | flowSequenceEnd =>
    rw [hu'] at hu
    contradiction
  | key =>
    rw [hu'] at hu
    contradiction
  | _ => rfl

theorem orEmpty_node {stops : List Token} (hstops : ∀ t ∈ stops, t.opening? = none)
    {opening : Event × List Goal} (hu : u.token.opening? = some opening) (node next : Goal)
    (m : Option Mark) :
    c.orEmpty stops node next m (u :: r) = .ok ⟨[], [node, next], u :: r⟩ := by
  have hnot : u.token ∉ stops := by
    intro hmem
    rw [hstops _ hmem] at hu
    contradiction
  simp [Context.orEmpty, hnot]

theorem meet_flowKey {first : Bool} {t : Placed} {ts : List Placed} {v : Placed}
    (hitem : c.item first .flowMappingEnd (t :: ts) = .ok (u, v :: r)) (hu : u.token = .key)
    {opening : Event × List Goal} (hv : v.token.opening? = some opening) :
    c.meet (.flowKey first) t ts = .ok ⟨[], [.flowNode, .flowValue], v :: r⟩ := by
  simp only [Context.meet, hitem, hu, bind, Except.bind]
  exact orEmpty_node (by decide) hv _ _ _

theorem meet_flowValue {t : Placed} (ht : t.token = .value) {opening : Event × List Goal}
    (hu : u.token.opening? = some opening) :
    c.meet .flowValue t (u :: r) = .ok ⟨[], [.flowNode, .flowKey false], u :: r⟩ := by
  simp only [Context.meet, ht]
  exact orEmpty_node (by decide) hu _ _ _

end

theorem walksPart_item {toks : List Token} {ps : List Piece} (h : Walks toks ps) :
    WalksPart .flowItems toks ps := by
  obtain ⟨⟨t, r, opening, rfl, hopening⟩, hwalks⟩ := h
  intro c gs ts rest hts
  obtain ⟨n, hn, hwalked⟩ := hwalks c .flowNode (.flowItems false :: gs) ts rest rfl hts
  obtain ⟨u, ts, rfl, rfl, hts⟩ := List.map_eq_cons_iff.mp hts
  refine ⟨n + 1, hn, ?_, fun comma hcomma => ?_⟩
  · exact (walked_goals (meet_flowItems (item_first _) hopening)).trans hwalked
  · exact (walked_goals (meet_flowItems (item_comma hcomma (by decide)) hopening)).trans hwalked

theorem walksPart_entry {toks : List Token} {ps : List Piece} (key : List Char) (h : Walks toks ps) :
    WalksPart .flowKey (.key :: .scalar .double key :: .value :: toks)
      (.scalar none .double key :: ps) := by
  obtain ⟨⟨t, r, opening, rfl, hopening⟩, hwalks⟩ := h
  intro c gs ts rest hts
  obtain ⟨k, ts, rfl, hk, hts⟩ := List.map_eq_cons_iff.mp hts
  obtain ⟨text, ts, rfl, htext, hts⟩ := List.map_eq_cons_iff.mp hts
  obtain ⟨colon, ts, rfl, hcolon, hts⟩ := List.map_eq_cons_iff.mp hts
  obtain ⟨n, hn, hwalked⟩ := hwalks c .flowNode (.flowKey false :: gs) ts rest rfl hts
  obtain ⟨u, ts, rfl, rfl, hts⟩ := List.map_eq_cons_iff.mp hts
  have hscalar : text.token.opening? = some (.scalar {} .double key, []) := by
    rw [htext, Token.opening?]
  have hentry : Walked c (n + 1 + 1) (.flowNode :: .flowValue :: gs)
      (text :: colon :: (u :: ts ++ rest)) (.scalar none .double key :: ps)
      (.flowKey false :: gs) rest :=
    (walked_event (meet_node c rfl hscalar _) rfl).trans
      ((walked_goals (meet_flowValue hcolon hopening)).trans hwalked)
  refine ⟨n + 1 + 1 + 1, ?_, ?_, fun comma hcomma => ?_⟩
  · simp only [List.length_cons] at hn ⊢
    omega
  · exact (walked_goals (meet_flowKey (item_first _) hk hscalar)).trans hentry
  · exact (walked_goals (meet_flowKey (item_comma hcomma (by decide)) hk hscalar)).trans hentry

/-- This text is read as these pieces, as a document or inside one. -/
def Spells (text : List Char) (pieces : List Piece) : Prop :=
  (∀ c ∈ text, isAllowed c) ∧ ∃ toks, Lexes text toks ∧ Walks toks pieces

theorem ofEvents_cons {e : Event} {p : Piece} (hp : e.piece? = some p) (fault : Option Fault)
    (position : Nat) (a : Anchors) (m : Mark) (es : List Marked) :
    Document.ofEvents fault position a (⟨e, m⟩ :: es) =
      let d := Document.ofEvents fault (position + 1) a es
      { d with spots := ⟨p, m⟩ :: d.spots } := by
  cases e with
  | scalar props style text =>
    obtain ⟨anchor, tag⟩ := props
    cases anchor with
    | some name => contradiction
    | none =>
      cases hp
      rfl
  | sequence props =>
    obtain ⟨anchor, tag⟩ := props
    cases anchor with
    | some name => contradiction
    | none =>
      cases hp
      rfl
  | mapping props =>
    obtain ⟨anchor, tag⟩ := props
    cases anchor with
    | some name => contradiction
    | none =>
      cases hp
      rfl
  | sequenceEnd =>
    cases hp
    rfl
  | mappingEnd =>
    cases hp
    rfl
  | _ => contradiction

theorem spots_ofEvents {events : List Marked} {pieces : List Piece} (h : Shows events pieces)
    (position : Nat) : ∃ spots, Document.ofEvents none position {} events = ⟨spots, [], none⟩ ∧
      spots.map Spot.piece = pieces := by
  induction events generalizing pieces position with
  | nil =>
    obtain rfl : pieces = [] := List.map_eq_nil_iff.mp h.symm
    exact ⟨[], rfl, rfl⟩
  | cons m events ih =>
    obtain ⟨p, pieces, rfl, hp, hpieces⟩ := List.map_eq_cons_iff.mp h.symm
    obtain ⟨spots, hspots, hshown⟩ := ih hpieces.symm (position + 1)
    refine ⟨⟨p, m.mark⟩ :: spots, ?_, by rw [List.map_cons, hshown]⟩
    rw [ofEvents_cons hp.symm, hspots]

theorem ofText_of_spells {text : List Char} {pieces : List Piece} (h : Spells text pieces) :
    ∃ spots, Document.ofText text = ⟨spots, [], none⟩ ∧ spots.map Spot.piece = pieces := by
  obtain ⟨hallowed, toks, hlexes, ⟨t, r, opening, rfl, hopening⟩, hwalks⟩ := h
  obtain ⟨placed, htext, hplaced⟩ := ofText_of_lexes hallowed hlexes
  obtain ⟨start, ts, last, rfl, -, hts, hlast⟩ := map_eq_enclosed hplaced
  let cut : Fault := ⟨.unexpectedToken, ⟨0, 0⟩⟩
  obtain ⟨n, hn, events, hshows, hwalk⟩ :=
    hwalks ⟨Document.usualHandles, cut⟩ (.blockNode false) [] ts [last] rfl hts
  obtain ⟨spots, hspots, hpieces⟩ := spots_ofEvents hshows 0
  refine ⟨spots, ?_, hpieces⟩
  -- A token takes two turns at most, and the limit allows for more.
  have hlimit : Document.goalLimit (ts ++ [last]) =
      Document.goalLimit (ts ++ [last]) - n + n := by
    rw [← hts, List.length_map] at hn
    rw [Document.goalLimit, List.length_append]
    omega
  have hwalked : Document.walkNode cut {} (ts ++ [last]) = ⟨events, .ok [last]⟩ := by
    rw [Document.walkNode, hlimit]
    refine (hwalk _).trans ?_
    simp [Context.walk]
  have hafter : Document.faultAfter cut [last] = none := by
    simp [Document.faultAfter, hlast]
  obtain ⟨u, ts, rfl, hu, -⟩ := List.map_eq_cons_iff.mp hts
  have hnode : Document.ofTokens ⟨start :: (u :: ts ++ [last]), none⟩ =
      Document.ofWalk cut (Document.walkNode cut {} (u :: ts ++ [last])) := by
    rw [← hu] at hopening
    simp only [Document.ofTokens, List.cons_append]
    cases hu' : u.token with
    | scalar style text => rfl
    | flowSequence => rfl
    | flowMapping => rfl
    | _ =>
      rw [hu'] at hopening
      contradiction
  rw [Document.ofText, htext, List.cons_append, hnode, hwalked]
  simp only [Document.ofWalk, hafter, hspots]

end ToolRoster.Yaml
