import ToolRoster.Proofs.Json.Skipping
/-!
# Fields by the grammar

A field is read from any text that spells a value for it, and from no other. Which values these are
is said field by field, apart from the readers. A reader that fails is of one kind here, whatever
its fault is.
-/
namespace ToolRoster.Json
open Decode (Draft Field Setting)

namespace Value

def string? : Value → Option String
  | text s => s
  | _ => none

def null? : Value → Option Unit
  | null => some ()
  | _ => none

def bool? : Value → Option Bool
  | bool b => some b
  | _ => none

def optionalString? : Value → Option (Option String)
  | null => some none
  | v => v.string?.map some

def capability? : Value → Option Capability
  | text (some word) => Capability.ofWord? word
  | object [(some word, null)] => Capability.ofWord? word
  | _ => none

def list? {α : Type} (value? : Value → Option α) : Value → Option (List α)
  | list vs => vs.mapM value?
  | _ => none

def setting? (v : Value) : Field → Option Setting
  | .name => v.string?.map .name
  | .available => v.bool?.map .available
  | .capability => v.capability?.map .capability
  | .fallback => v.optionalString?.map .fallback
  | .useCases => (v.list? string?).map .useCases

end Value

/-- Before any text of the value the reader comes to this, or it fails. -/
def TakesValue {α : Type} (read : Read α) (cs : List Char) (a? : Option α) : Prop :=
  ∀ ⦃rest text : List Char⦄, Ends rest → skipBlank text = cs ++ rest →
    (read text).toOption = a?.map (·, rest)

def TakesItem {α : Type} (read : Read α) (cs : List Char) (a? : Option α) : Prop :=
  ∀ ⦃rest text : List Char⦄, Ends rest → skipBlank text = skipBlank (cs ++ rest) →
    ∃ r, skipBlank r = skipBlank rest ∧ (read text).toOption = a?.map (·, r)

section
variable {α : Type} {read : Read α} {v : Value} {cs text r : List Char} {c : Char}

theorem takes_item {a? : Option α} (h : ∀ {cs}, Spells (.value v) cs → TakesValue read cs a?)
    (hitem : Spells (.item v) cs) : TakesItem read cs a? := by
  intro rest text hrest htext
  cases hitem with
  | item hb hvalue hb' =>
    rw [List.append_assoc, List.append_assoc, skipBlank_append hb, hvalue.visible] at htext
    exact ⟨_, skipBlank_append hb' rest, h hvalue (hrest.append hb') htext⟩

theorem readText_other (h : skipBlank text = c :: r) (hc : c ≠ '"') :
    (readText text).toOption = none := by
  simp [readText, h, hc, Except.toOption]

theorem takes_string (h : Spells (.value v) cs) : TakesValue readText cs v.string? := by
  intro rest text _ htext
  obtain ⟨c, r, hcs, hc⟩ := h.start
  by_cases hquote : c = '"'
  · obtain ⟨s, rfl⟩ := hc.told.text hquote
    cases h with
    | text ps =>
      rw [quoted_append] at htext
      simp only [readText, htext, readString_pieces]
      rfl
  · rw [hcs] at htext
    rw [readText_other htext hquote]
    cases v with
    | text s => exact absurd hc hquote
    | _ => rfl

theorem readText_skipBlank (text : List Char) : readText (skipBlank text) = readText text := by
  rw [readText, readText, skipBlank_skipBlank]

theorem readOptionalText_other (h : skipBlank text = c :: r) (hc : c ≠ 'n') :
    (readOptionalText text).toOption =
      (readText text).toOption.map fun p => (some p.1, p.2) := by
  rw [← readText_skipBlank text, readOptionalText, h]
  split
  · rename_i he
    exact absurd (List.cons.inj he).1 hc
  · rw [toOption_bind]
    cases (readText (c :: r)).toOption <;> rfl

theorem takes_optionalString (h : Spells (.value v) cs) :
    TakesValue readOptionalText cs v.optionalString? := by
  intro rest text hrest htext
  obtain ⟨c, r, hcs, hc⟩ := h.start
  by_cases hn : c = 'n'
  · obtain rfl := hc.told.null hn
    cases h with
    | null =>
      simp only [readOptionalText, htext]
      rfl
  · -- Every other value is read as a string.
    have hstring := takes_string h hrest htext
    have hvalue : v.optionalString? = v.string?.map some := by
      cases v with
      | null => exact absurd hc hn
      | _ => rfl
    rw [hcs] at htext
    rw [readOptionalText_other htext hn, hstring, hvalue]
    cases v.string? <;> rfl

theorem readBool_other (h : skipBlank text = c :: r) (hc : c ≠ 't' ∧ c ≠ 'f') :
    (readBool text).toOption = none := by
  simp [readBool, h, hc, Except.toOption]

theorem takes_bool (h : Spells (.value v) cs) : TakesValue readBool cs v.bool? := by
  intro rest text _ htext
  obtain ⟨c, r, hcs, hc⟩ := h.start
  by_cases hletter : c = 't' ∨ c = 'f'
  · obtain ⟨b, rfl⟩ := hc.told.bool hletter
    cases h with
    | bool b =>
      cases b with
      | false =>
        simp only [readBool, htext]
        rfl
      | true =>
        simp only [readBool, htext]
        rfl
  · rw [hcs] at htext
    rw [readBool_other htext (not_or.mp hletter)]
    cases v with
    | bool b =>
      obtain rfl : c = if b then 't' else 'f' := hc
      cases b <;> simp at hletter
    | _ => rfl

theorem readNull_other (h : skipBlank text = c :: r) (hc : c ≠ 'n') :
    (readNull text).toOption = none := by
  simp [readNull, h, hc, Except.toOption]

theorem takes_null (h : Spells (.value v) cs) :
    TakesValue (fun text => (readNull text).map ((), ·)) cs v.null? := by
  intro rest text _ htext
  obtain ⟨c, r, hcs, hc⟩ := h.start
  by_cases hn : c = 'n'
  · obtain rfl := hc.told.null hn
    cases h with
    | null =>
      simp only [readNull, htext]
      rfl
  · rw [hcs] at htext
    rw [toOption_map, readNull_other htext hn]
    cases v with
    | null => exact absurd hc hn
    | _ => rfl

theorem colon_append {b : List Char} (hb : Blank b) (rest : List Char) :
    colon (b ++ ':' :: rest) = .ok rest := by
  rw [colon, skipBlank_append hb, skipBlank_cons (by decide)]
  rfl

theorem readCapabilityWord_pieces (ps : List Piece) (rest : List Char) :
    (readCapabilityWord (ps.flatMap Piece.text ++ '"' :: rest)).toOption =
      ((string? ps).bind Capability.ofWord?).map (·, rest) := by
  rw [readCapabilityWord, toOption_bind, readString_pieces]
  cases string? ps with
  | none => rfl
  | some word =>
    simp only [Option.map_some, Option.bind_some, Decode.capability]
    cases Capability.ofWord? word <;> rfl

theorem readCapability_other (h : skipBlank text = c :: r) (hc : c ≠ '"' ∧ c ≠ '\x7b') :
    (readCapability text).toOption = none := by
  simp [readCapability, h, hc, Except.toOption]

theorem readCapability_object {r' : List Char} (h : skipBlank text = '\x7b' :: r)
    (hr : skipBlank r = '"' :: r') :
    (readCapability text).toOption = (readCapabilityWord r').toOption.bind fun p =>
      (colon p.2).toOption.bind fun r => (readNull r).toOption.bind fun r =>
        match skipBlank r with
        | '}' :: r => some (p.1, r)
        | _ => none := by
  simp only [readCapability, h, hr, toOption_bind]
  refine Option.bind_congr fun p _ => Option.bind_congr fun r₁ _ => Option.bind_congr fun r₂ _ => ?_
  cases skipBlank r₂ with
  | nil => rfl
  | cons c r₃ =>
    by_cases hc : c = '}'
    · subst hc
      rfl
    · simp [hc, Except.toOption]

theorem Value.capability?_object (m : Member) :
    (Value.object [m]).capability? =
      (m.1.bind Capability.ofWord?).bind fun c => m.2.null?.map fun _ => c := by
  obtain ⟨key, v⟩ := m
  cases key with
  | none => rfl
  | some word =>
    cases v with
    | null =>
      simp only [capability?, null?, Option.bind_some, Option.map_some]
      cases Capability.ofWord? word <;> rfl
    | _ => simp [capability?, null?]

theorem readNull_item (h : Spells (.item v) cs) {rest : List Char} (hrest : Ends rest) :
    ∃ r, skipBlank r = skipBlank rest ∧
      (readNull (cs ++ rest)).toOption = v.null?.map fun _ => r := by
  obtain ⟨r, hr, hnull⟩ := takes_item takes_null h hrest rfl
  have hinj : Function.Injective (Prod.mk () : List Char → Unit × List Char) :=
    fun _ _ he => (Prod.mk.inj he).2
  refine ⟨r, hr, Option.map_injective hinj ?_⟩
  rw [← toOption_map, hnull]
  cases v.null? <;> rfl

theorem readCapability_member {m : Member} {rest : List Char} (h : Spells (.member m) cs)
    (hrest : Ends rest) (hopen : skipBlank text = '\x7b' :: r)
    (hr : skipBlank r = skipBlank (cs ++ rest)) :
    ∃ r', skipBlank r' = skipBlank rest ∧ (readCapability text).toOption =
      (Value.object [m]).capability?.bind fun c =>
        match skipBlank r' with
        | '}' :: r => some (c, r)
        | _ => none := by
  cases h with
  | member ps hb hb' hitem =>
    rw [skipBlank_member hb] at hr
    obtain ⟨r', hr', hnull⟩ := readNull_item hitem hrest
    refine ⟨r', hr', ?_⟩
    rw [readCapability_object hopen hr, readCapabilityWord_pieces, Value.capability?_object]
    cases (string? ps).bind Capability.ofWord? with
    | none => rfl
    | some c =>
      simp only [Option.map_some, Option.bind_some, colon_append hb', toOption_ok, hnull,
        Option.bind_map]
      rfl

theorem Spells.members_ne_nil {ms : List Member} (h : Spells (.members ms) cs) : ms ≠ [] := by
  cases h <;> exact List.cons_ne_nil _ _

theorem readCapability_members {ms : List Member} (h : Spells (.value (.object ms)) cs)
    {rest : List Char} (htext : skipBlank text = cs ++ rest) :
    (readCapability text).toOption = (Value.object ms).capability?.map (·, rest) := by
  cases h with
  | emptyObject hb =>
    rw [List.cons_append, List.append_assoc] at htext
    simp only [readCapability, htext, skipBlank_append hb]
    rfl
  | object h =>
    rw [enclosed_append] at htext
    cases h with
    | lastMember hm =>
      obtain ⟨r', hr', hread⟩ := readCapability_member hm (ends_cons (by decide) _) htext rfl
      rw [skipBlank_cons (by decide)] at hr'
      simp only [hread, hr', Option.map_eq_bind]
      rfl
    | moreMembers hm hmore =>
      rw [List.append_assoc, List.cons_append] at htext
      obtain ⟨r', hr', hread⟩ := readCapability_member hm (ends_cons (Or.inl rfl) _) htext rfl
      rw [skipBlank_cons (by decide)] at hr'
      obtain ⟨m', ms, rfl⟩ := List.exists_cons_of_ne_nil hmore.members_ne_nil
      simp [hread, hr', Value.capability?]

theorem takes_capability (h : Spells (.value v) cs) :
    TakesValue readCapability cs v.capability? := by
  intro rest text _ htext
  obtain ⟨c, r, hcs, hc⟩ := h.start
  by_cases hquote : c = '"'
  · obtain ⟨s, rfl⟩ := hc.told.text hquote
    cases h with
    | text ps =>
      rw [quoted_append] at htext
      simp only [readCapability, htext, readCapabilityWord_pieces]
      cases string? ps <;> rfl
  by_cases hopen : c = '\x7b'
  · obtain ⟨ms, rfl⟩ := hc.told.object hopen
    exact readCapability_members h htext
  · rw [hcs] at htext
    rw [readCapability_other htext ⟨hquote, hopen⟩]
    cases v with
    | text s => exact absurd hc hquote
    | object ms => exact absurd hc hopen
    | _ => rfl

theorem Spells.items_ne_nil {vs : List Value} (h : Spells (.items vs) cs) : cs ≠ [] := by
  rintro rfl
  obtain ⟨c, r, hr, -⟩ := h.items_start []
  simp [skipBlank] at hr

section
variable {value? : Value → Option α} {first : Bool} {rest : List Char}

theorem readElements_item (hread : TakesItem read cs (value? v)) (h : Spells (.items [v]) cs)
    (hrest : Ends rest) (hlead : Leads first text (skipBlank (cs ++ rest))) (fuel : Nat) :
    ∃ r, skipBlank r = skipBlank rest ∧ (readElements read (fuel + 1) first text).toOption =
      (value? v).bind fun x =>
        (readElements read fuel false r).toOption.map fun p => (x :: p.1, p.2) := by
  obtain ⟨c, r', hr', hc⟩ := h.items_start rest
  have hstart : skipBlank (c :: r') = skipBlank (cs ++ rest) := by rw [← hr', skipBlank_skipBlank]
  rw [hr'] at hlead
  obtain ⟨r, hr, htake⟩ := hread hrest hstart
  refine ⟨r, hr, ?_⟩
  simp only [readElements, nextElement_leads hlead hc, toOption_bind, toOption_ok,
    Option.bind_some, htake]
  cases value? v with
  | none => rfl
  | some x =>
    simp only [Option.map_some, Option.bind_some]
    cases (readElements read fuel false r).toOption <;> rfl

theorem readElements_items (hread : ∀ {v cs}, Spells (.item v) cs → TakesItem read cs (value? v))
    {vs : List Value} (h : Spells (.items vs) cs) {fuel : Nat} (hfuel : cs.length < fuel)
    (hlead : Leads first text (skipBlank (cs ++ ']' :: rest))) :
    (readElements read fuel first text).toOption =
      (vs.mapM value?).map (·, ']' :: rest) := by
  obtain ⟨fuel, rfl⟩ := Nat.exists_eq_succ_of_ne_zero (Nat.ne_zero_of_lt hfuel)
  induction vs generalizing cs first text fuel with
  | nil => cases h
  | cons v vs ih =>
    cases h with
    | lastItem hitem =>
      have hlast := Spells.lastItem hitem
      have hpos := List.length_pos_iff.mpr hlast.items_ne_nil
      obtain ⟨fuel, rfl⟩ := Nat.exists_eq_succ_of_ne_zero (show fuel ≠ 0 by omega)
      obtain ⟨r, hr, hstep⟩ := readElements_item (hread hitem) hlast
        (ends_cons (Or.inr (Or.inl rfl)) rest) hlead (fuel + 1)
      rw [skipBlank_cons (by decide)] at hr
      rw [hstep, readElements_end false hr]
      cases hv : value? v <;> simp [hv, toOption_ok]
    | moreItems hitem hmore =>
      rw [List.length_append, List.length_cons] at hfuel
      obtain ⟨fuel, rfl⟩ := Nat.exists_eq_succ_of_ne_zero (show fuel ≠ 0 by omega)
      rw [List.append_assoc, List.cons_append] at hlead
      obtain ⟨r, hr, hstep⟩ := readElements_item (hread hitem) (.lastItem hitem)
        (ends_cons (Or.inl rfl) _) hlead (fuel + 1)
      rw [skipBlank_cons (by decide)] at hr
      rw [hstep, ih hmore (leads_more hr) fuel (by omega)]
      cases hv : value? v with
      | none => simp [hv]
      | some x => cases hvs : vs.mapM value? <;> simp [hv, hvs]

theorem readList_opened (h : skipBlank text = '[' :: r) :
    (readList read text).toOption =
      (readElements read (r.length + 1) true r).toOption.bind fun p =>
        (endList p.2).toOption.map fun r => (p.1, r) := by
  rw [readList, h]
  simp only [toOption_bind]
  refine Option.bind_congr fun p _ => ?_
  cases (endList p.2).toOption <;> rfl

theorem readList_other (h : skipBlank text = c :: r) (hc : c ≠ '[') :
    (readList read text).toOption = none := by
  simp [readList, h, hc, Except.toOption]

theorem readList_items (hread : ∀ {v cs}, Spells (.item v) cs → TakesItem read cs (value? v))
    {vs : List Value} (h : Spells (.value (.list vs)) cs) (htext : skipBlank text = cs ++ rest) :
    (readList read text).toOption = (vs.mapM value?).map (·, rest) := by
  cases h with
  | emptyList hb =>
    rw [enclosed_append] at htext
    have hend := skipBlank_append hb (']' :: rest)
    rw [skipBlank_cons (by decide)] at hend
    rw [readList_opened htext, readElements_end true hend]
    simp [endList_close, toOption_ok]
  | @list vs cs h =>
    rw [enclosed_append] at htext
    have hfuel : cs.length < (cs ++ ']' :: rest).length + 1 := by
      rw [List.length_append]
      omega
    rw [readList_opened htext, readElements_items hread h hfuel (leads_first _), Option.bind_map]
    simp only [Function.comp_def, endList_close, toOption_ok]
    cases vs.mapM value? <;> rfl

theorem takes_list (hread : ∀ {v cs}, Spells (.item v) cs → TakesItem read cs (value? v))
    (h : Spells (.value v) cs) : TakesValue (readList read) cs (v.list? value?) := by
  intro rest text _ htext
  obtain ⟨c, r, hcs, hc⟩ := h.start
  by_cases hopen : c = '['
  · obtain ⟨vs, rfl⟩ := hc.told.list hopen
    exact readList_items hread h htext
  · rw [hcs] at htext
    rw [readList_other htext hopen]
    cases v with
    | list vs => exact absurd hc hopen
    | _ => rfl

end

theorem TakesItem.map {α β : Type} {read : Read α} {read' : Read β} {a? : Option α} (f : α → β)
    (h : TakesItem read cs a?)
    (hread : ∀ text, read' text = (read text).map fun p => (f p.1, p.2)) :
    TakesItem read' cs (a?.map f) := by
  intro rest text hrest htext
  obtain ⟨r, hr, htake⟩ := h hrest htext
  refine ⟨r, hr, ?_⟩
  rw [hread, toOption_map, htake]
  cases a? <;> rfl

theorem takes_setting (f : Field) (h : Spells (.item v) cs) :
    TakesItem (readField f) cs (v.setting? f) := by
  cases f with
  | name => exact (takes_item takes_string h).map Setting.name fun _ => rfl
  | available => exact (takes_item takes_bool h).map Setting.available fun _ => rfl
  | capability => exact (takes_item takes_capability h).map Setting.capability fun _ => rfl
  | fallback => exact (takes_item takes_optionalString h).map Setting.fallback fun _ => rfl
  | useCases =>
    have hstring := fun {v cs} (h : Spells (.item v) cs) => takes_item takes_string h
    exact (takes_item (takes_list hstring) h).map Setting.useCases fun _ => rfl

end
end ToolRoster.Json
