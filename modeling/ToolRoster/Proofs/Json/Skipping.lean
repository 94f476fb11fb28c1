import ToolRoster.Proofs.Json.Scanning
/-!
# Values passed over

Whatever a text of the grammar spells, it can be passed over, and no more than it. Passing keeps a
stack of open frames and counts its steps down, so what is shown of a value is that the frames are
left as they were, with steps enough for the text that follows.
-/
namespace ToolRoster.Json

def goOn (fuel : Nat) (next : Except Fault Next) : Except Fault (List Char) := do
  match ← next with
  | .finished r => .ok r
  | .more fs r => do skipInside fuel fs (← skipIntro (fs.headD .list) r)

def after (fuel : Nat) (fs : List Frame) (cs : List Char) : Except Fault (List Char) :=
  goOn fuel (closeFrames fs cs)

def enter (fuel : Nat) (f : Frame) (fs : List Frame) (cs : List Char) :
    Except Fault (List Char) := do
  skipInside fuel (f :: fs) (← skipIntro f cs)

section
variable {fuel : Nat} {f : Frame} {fs : List Frame} {text r r' : List Char}

theorem skipInside_value (h : skipHead text = .ok (.value r)) :
    skipInside (fuel + 1) fs text = after fuel fs r := by
  rw [skipInside, h]
  rfl

theorem skipInside_empty (h : skipHead text = .ok (.opened f r))
    (hr : skipBlank r = f.closing :: r') : skipInside (fuel + 1) fs text = after fuel fs r' := by
  simp only [skipInside, h, bind, Except.bind, hr, if_true]
  rfl

theorem skipInside_opened (h : skipHead text = .ok (.opened f r)) {c : Char}
    (hr : skipBlank r = c :: r') (hc : c ≠ f.closing) :
    skipInside (fuel + 1) fs text = enter fuel f fs (c :: r') := by
  simp only [skipInside, h, bind, Except.bind, hr, if_neg hc]
  rfl

theorem after_nil : after fuel [] r = .ok r := rfl

theorem after_comma (hr : skipBlank r = ',' :: r') :
    after fuel (f :: fs) r = enter fuel f fs r' := by
  simp only [after, closeFrames, hr]
  rfl

theorem after_close (hr : skipBlank r = f.closing :: r') :
    after fuel (f :: fs) r = after fuel fs r' := by
  have hcomma : f.closing ≠ ',' := by cases f <;> decide
  unfold after
  rw [closeFrames, hr]
  split
  · contradiction
  · rename_i he
    exact absurd (List.cons.inj he).1 hcomma
  · rename_i he
    obtain ⟨rfl, rfl⟩ := List.cons.inj he
    rw [if_pos rfl]

end

/-- Passing this text leaves the frames as they are. -/
def PassesValue (cs : List Char) : Prop :=
  ∀ (fuel : Nat) (fs : List Frame) {rest text : List Char}, Ends rest →
    skipBlank text = cs ++ rest → cs.length ≤ fuel → ∃ fuel', fuel ≤ fuel' + cs.length ∧
      skipInside fuel fs text = after fuel' fs rest

def PassesItem (cs : List Char) : Prop :=
  ∀ (fuel : Nat) (fs : List Frame) {rest text : List Char}, Ends rest →
    skipBlank text = skipBlank (cs ++ rest) → cs.length ≤ fuel → ∃ fuel' r,
      fuel ≤ fuel' + cs.length ∧ skipBlank r = skipBlank rest ∧
        skipInside fuel fs text = after fuel' fs r

def PassesEntry (f : Frame) (cs : List Char) : Prop :=
  ∀ (fuel : Nat) (fs : List Frame) {rest text : List Char}, Ends rest →
    skipBlank text = skipBlank (cs ++ rest) → cs.length ≤ fuel → ∃ fuel' r,
      fuel ≤ fuel' + cs.length ∧ skipBlank r = skipBlank rest ∧
        enter fuel f fs text = after fuel' (f :: fs) r

def PassesEntries (f : Frame) (cs : List Char) : Prop :=
  ∀ (fuel : Nat) (fs : List Frame) {rest text : List Char},
    skipBlank text = skipBlank (cs ++ f.closing :: rest) → cs.length ≤ fuel →
      ∃ fuel', fuel ≤ fuel' + cs.length ∧ enter fuel f fs text = after fuel' fs rest

section
variable {cs cs' : List Char}

theorem passesValue_of_skipHead (hcs : cs ≠ [])
    (h : ∀ text rest, Ends rest → skipBlank text = cs ++ rest →
      skipHead text = .ok (.value rest)) : PassesValue cs := by
  intro fuel fs rest text hrest htext hfuel
  have hpos : 0 < cs.length := List.length_pos_iff.mpr hcs
  obtain ⟨n, rfl⟩ := Nat.exists_eq_succ_of_ne_zero (show fuel ≠ 0 by omega)
  exact ⟨n, by omega, skipInside_value (h text rest hrest htext)⟩

theorem PassesValue.item {b b' : List Char} (hb : Blank b) (h : PassesValue cs) (hb' : Blank b')
    (hvisible : ∀ rest, skipBlank (cs ++ rest) = cs ++ rest) : PassesItem (b ++ (cs ++ b')) := by
  intro fuel fs rest text hrest htext hfuel
  rw [List.append_assoc, List.append_assoc, skipBlank_append hb, hvisible] at htext
  simp only [List.length_append] at hfuel ⊢
  obtain ⟨fuel', hfuel', hskip⟩ := h fuel fs (hrest.append hb') htext (by omega)
  exact ⟨fuel', b' ++ rest, by omega, skipBlank_append hb' rest, hskip⟩

theorem PassesItem.entry (h : PassesItem cs) : PassesEntry .list cs :=
  fun fuel fs _ _ hrest htext hfuel => h fuel (.list :: fs) hrest htext hfuel

theorem PassesEntry.last {f : Frame} (h : PassesEntry f cs) : PassesEntries f cs := by
  intro fuel fs rest text htext hfuel
  have hends : Ends (f.closing :: rest) := ends_cons (by cases f <;> decide) rest
  have hclosing : isBlank f.closing = false := by cases f <;> decide
  obtain ⟨fuel', r, hfuel', hr, henter⟩ := h fuel fs hends htext hfuel
  rw [skipBlank_cons hclosing] at hr
  exact ⟨fuel', hfuel', henter.trans (after_close hr)⟩

theorem PassesEntry.more {f : Frame} (h : PassesEntry f cs) (hmore : PassesEntries f cs') :
    PassesEntries f (cs ++ ',' :: cs') := by
  intro fuel fs rest text htext hfuel
  rw [List.append_assoc, List.cons_append] at htext
  simp only [List.length_append, List.length_cons] at hfuel ⊢
  obtain ⟨fuel₁, r, hfuel₁, hr, henter⟩ := h fuel fs (ends_cons (Or.inl rfl) _) htext (by omega)
  rw [skipBlank_cons (by decide)] at hr
  obtain ⟨fuel₂, hfuel₂, hlater⟩ := hmore fuel₁ fs rfl (by omega)
  exact ⟨fuel₂, by omega, (henter.trans (after_comma hr)).trans hlater⟩

def Frame.opening : Frame → Char
  | list => '['
  | object => '{'

theorem skipHead_opening (f : Frame) {text r : List Char} (h : skipBlank text = f.opening :: r) :
    skipHead text = .ok (.opened f r) := by
  cases f <;> simp [skipHead, h, Frame.opening]

theorem passesValue_empty (f : Frame) {b : List Char} (hb : Blank b) :
    PassesValue (f.opening :: (b ++ [f.closing])) := by
  have hclosing : isBlank f.closing = false := by cases f <;> decide
  intro fuel fs rest text _ htext hfuel
  rw [enclosed_append] at htext
  simp only [List.length_cons] at hfuel ⊢
  obtain ⟨n, rfl⟩ := Nat.exists_eq_succ_of_ne_zero (show fuel ≠ 0 by omega)
  refine ⟨n, by omega, skipInside_empty (skipHead_opening f htext) ?_⟩
  rw [skipBlank_append hb, skipBlank_cons hclosing]

theorem PassesEntries.collection {f : Frame} (h : PassesEntries f cs)
    (hstart : ∀ rest, ∃ c r, skipBlank (cs ++ rest) = c :: r ∧ c ≠ f.closing) :
    PassesValue (f.opening :: (cs ++ [f.closing])) := by
  intro fuel fs rest text _ htext hfuel
  rw [enclosed_append] at htext
  simp only [List.length_cons, List.length_append, List.length_nil] at hfuel ⊢
  obtain ⟨n, rfl⟩ := Nat.exists_eq_succ_of_ne_zero (show fuel ≠ 0 by omega)
  obtain ⟨c, r, hr, hc⟩ := hstart (f.closing :: rest)
  have hentries : skipBlank (c :: r) = skipBlank (cs ++ f.closing :: rest) := by
    rw [← hr, skipBlank_skipBlank]
  obtain ⟨fuel', hfuel', henter⟩ := h n fs hentries (by omega)
  exact ⟨fuel', by omega, (skipInside_opened (skipHead_opening f htext) hr hc).trans henter⟩

theorem PassesItem.member (ps : List Piece) {b b' : List Char} (hb : Blank b) (hb' : Blank b')
    (h : PassesItem cs) : PassesEntry .object (b ++ (quoted ps ++ (b' ++ ':' :: cs))) := by
  intro fuel fs rest text hrest htext hfuel
  have hkey : skipKey text = .ok (cs ++ rest) := by
    rw [skipBlank_member hb] at htext
    simp only [skipKey, htext, skipString_pieces, bind, Except.bind]
    rw [skipBlank_append hb', skipBlank_cons (by decide)]
    rfl
  simp only [List.length_append, List.length_cons] at hfuel ⊢
  obtain ⟨fuel', r, hfuel', hr, hskip⟩ := h fuel (.object :: fs) hrest rfl (by omega)
  refine ⟨fuel', r, by omega, hr, ?_⟩
  rw [← hskip, enter, skipIntro, hkey]
  rfl

end

theorem passes_null : PassesValue "null".toList := by
  refine passesValue_of_skipHead (by decide) fun text rest _ htext => ?_
  simp only [skipHead, htext]
  rfl

theorem passes_bool (b : Bool) : PassesValue (writeBool b) := by
  refine passesValue_of_skipHead (by cases b <;> decide) fun text rest _ htext => ?_
  cases b with
  | false =>
    simp only [skipHead, htext]
    rfl
  | true =>
    simp only [skipHead, htext]
    rfl

theorem passes_quoted (ps : List Piece) : PassesValue (quoted ps) := by
  have hne : quoted ps ≠ [] := List.cons_ne_nil _ _
  refine passesValue_of_skipHead hne fun text rest _ htext => ?_
  rw [quoted_append] at htext
  simp only [skipHead, htext, skipString_pieces]
  rfl

theorem skipHead_digit {d : Char} (hd : d.isDigit) {text r : List Char}
    (h : skipBlank text = d :: r) : skipHead text = Skipped.value <$> skipNumber (d :: r) := by
  have hother : ∀ x : Char, x.isDigit = false → d ≠ x := by
    rintro x hx rfl
    simp [hd] at hx
  simp [skipHead, h, hother 'n' (by decide), hother 't' (by decide), hother 'f' (by decide),
    hother '-' (by decide), hother '"' (by decide), hother '[' (by decide),
    hother '\x7b' (by decide), isSome_digit?, hd]

theorem passes_number {cs : List Char} (h : IsNumber cs) : PassesValue cs := by
  obtain ⟨c, r, hcs, -⟩ := h.start
  refine passesValue_of_skipHead (hcs ▸ List.cons_ne_nil c r) fun text rest hrest htext => ?_
  obtain ⟨hsign, hwhole, hfraction, hexponent⟩ := h
  have hskip := skipNumber_parts hwhole hfraction hexponent hrest
  simp only [List.append_assoc] at htext
  rcases hsign with rfl | rfl
  · obtain ⟨d, ds, rfl, hd⟩ := hwhole.start
    rw [List.nil_append, List.cons_append] at htext
    rw [skipHead_digit hd htext, ← List.cons_append, hskip]
    rfl
  · rw [List.singleton_append] at htext
    simp only [skipHead, htext, hskip]
    rfl

theorem Spells.visible {v : Value} {cs : List Char} (h : Spells (.value v) cs) (rest : List Char) :
    skipBlank (cs ++ rest) = cs ++ rest := by
  obtain ⟨c, r, rfl, hc⟩ := h.start
  exact skipBlank_cons hc.visible.1 (r ++ rest)

theorem Spells.items_start {vs : List Value} {cs : List Char} (h : Spells (.items vs) cs)
    (rest : List Char) : ∃ c r, skipBlank (cs ++ rest) = c :: r ∧ c ≠ ']' := by
  have hitem : ∀ {v : Value} {cs : List Char}, Spells (.item v) cs → ∀ rest,
      ∃ c r, skipBlank (cs ++ rest) = c :: r ∧ c ≠ ']' := by
    intro v cs h rest
    cases h with
    | item hb h hb' =>
      rw [List.append_assoc, List.append_assoc, skipBlank_append hb, h.visible]
      obtain ⟨c, r, rfl, hc⟩ := h.start
      exact ⟨c, _, rfl, hc.visible.2.1⟩
  cases h with
  | lastItem h => exact hitem h rest
  | moreItems h hmore =>
    rw [List.append_assoc]
    exact hitem h _

theorem Spells.members_start {ms : List Member} {cs : List Char} (h : Spells (.members ms) cs)
    (rest : List Char) : ∃ r, skipBlank (cs ++ rest) = '"' :: r := by
  have hmember : ∀ {m : Member} {cs : List Char}, Spells (.member m) cs → ∀ rest,
      ∃ r, skipBlank (cs ++ rest) = '"' :: r := by
    intro m cs h rest
    cases h with
    | member ps hb hb' h => exact ⟨_, skipBlank_member hb ps _ _ rest⟩
  cases h with
  | lastMember h => exact hmember h rest
  | moreMembers h hmore =>
    rw [List.append_assoc]
    exact hmember h _

def Passes : Part → List Char → Prop
  | .value _, cs => PassesValue cs
  | .item _, cs => PassesItem cs
  | .items _, cs => PassesEntries .list cs
  | .member _, cs => PassesEntry .object cs
  | .members _, cs => PassesEntries .object cs

theorem Spells.passes {p : Part} {cs : List Char} (h : Spells p cs) : Passes p cs := by
  induction h with
  | null => exact passes_null
  | bool b => exact passes_bool b
  | number h => exact passes_number h
  | text ps => exact passes_quoted ps
  | emptyList hb => exact passesValue_empty .list hb
  | list h ih => exact PassesEntries.collection ih h.items_start
  | emptyObject hb => exact passesValue_empty .object hb
  | object h ih =>
    refine PassesEntries.collection ih fun rest => ?_
    obtain ⟨r, hr⟩ := h.members_start rest
    exact ⟨'"', r, hr, by decide⟩
  | item hb h hb' ih => exact PassesValue.item hb ih hb' h.visible
  | lastItem h ih => exact ih.entry.last
  | moreItems h hmore ih ihmore => exact ih.entry.more ihmore
  | member ps hb hb' h ih => exact ih.member ps hb hb'
  | lastMember h ih => exact ih.last
  | moreMembers h hmore ih ihmore => exact ih.more ihmore

theorem Spells.skipValue {v : Value} {cs : List Char} (h : Spells (.item v) cs) {rest : List Char}
    (hrest : Ends rest) : ∃ r, skipBlank r = skipBlank rest ∧ Json.skipValue (cs ++ rest) = .ok r := by
  have hfuel : cs.length ≤ (cs ++ rest).length + 1 := by
    rw [List.length_append]
    omega
  obtain ⟨fuel', r, -, hr, hskip⟩ := h.passes _ [] hrest rfl hfuel
  exact ⟨r, hr, hskip.trans after_nil⟩

end ToolRoster.Json
