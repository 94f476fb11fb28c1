import ToolRoster.Proofs.Json.Fields
import ToolRoster.Proofs.Json.Records
/-!
# Members by the grammar

The members of an object go into a draft one by one, in the order of the text. What each does to the
draft is said here of keys and values alone, and reading the text of an object comes to the same.
-/
namespace ToolRoster.Json
open Decode (Draft Field Setting)

/-- What a member makes of the draft. A member of an unknown key leaves it as it is; one of a field
that the draft holds, or with a value that the field does not take, ends the reading. -/
def takeMember (d : Draft) (m : Member) : Option Draft :=
  match m.1 with
  | none => none
  | some key =>
    match Field.ofKey? key with
    | none => some d
    | some f => if d.holds f then none else (m.2.setting? f).map d.set

def recordOf? (ms : List Member) : Option Tool :=
  (ms.foldlM takeMember {}).bind fun d => d.finish.toOption

section
variable {cs text r rest : List Char} {c : Char} {first : Bool} {d : Draft}

theorem nextKey_pieces {ps : List Piece}
    (h : Leads first text ('"' :: (ps.flatMap Piece.text ++ '"' :: r))) :
    (nextKey first text).toOption = (string? ps).map fun key => (some key, r) := by
  rw [nextKey_leads h, toOption_bind, readString_pieces]
  cases string? ps <;> rfl

theorem readMembers_member {m : Member} (h : Spells (.member m) cs) (hrest : Ends rest)
    (hlead : Leads first text (skipBlank (cs ++ rest))) (d : Draft) (fuel : Nat) :
    ∃ r, skipBlank r = skipBlank rest ∧ (readMembers (fuel + 1) first d text).toOption =
      (takeMember d m).bind fun d' => (readMembers fuel false d' r).toOption := by
  cases h with
  | @member v b b' cs ps hb hb' hitem =>
    rw [skipBlank_member hb] at hlead
    simp only [readMembers, toOption_bind, nextKey_pieces hlead]
    cases string? ps with
    | none => exact ⟨rest, rfl, rfl⟩
    | some key =>
      simp only [Option.map_some, Option.bind_some, takeMember]
      cases Field.ofKey? key with
      | none =>
        obtain ⟨r, hr, hskip⟩ := hitem.skipValue hrest
        refine ⟨r, hr, ?_⟩
        simp only [toOption_bind, colon_append hb', toOption_ok, Option.bind_some, hskip]
      | some f =>
        obtain ⟨r, hr, htake⟩ := takes_setting f hitem hrest rfl
        refine ⟨r, hr, ?_⟩
        dsimp only
        split
        · rfl
        · simp only [toOption_bind, colon_append hb', toOption_ok, Option.bind_some, htake]
          cases v.setting? f <;> rfl

theorem readMembers_members {ms : List Member} (h : Spells (.members ms) cs) {fuel : Nat}
    (hfuel : cs.length < fuel) (hlead : Leads first text (skipBlank (cs ++ '}' :: rest))) :
    (readMembers fuel first d text).toOption =
      (ms.foldlM takeMember d).map (·, '}' :: rest) := by
  obtain ⟨fuel, rfl⟩ := Nat.exists_eq_succ_of_ne_zero (Nat.ne_zero_of_lt hfuel)
  induction ms generalizing cs first text fuel d with
  | nil => cases h
  | cons m ms ih =>
    cases h with
    | lastMember hm =>
      obtain ⟨s, hs⟩ := (Spells.lastMember hm).members_start []
      have hpos : cs ≠ [] := by
        rintro rfl
        simp [skipBlank] at hs
      have hlength := List.length_pos_iff.mpr hpos
      obtain ⟨fuel, rfl⟩ := Nat.exists_eq_succ_of_ne_zero (show fuel ≠ 0 by omega)
      obtain ⟨r, hr, hstep⟩ :=
        readMembers_member hm (ends_cons (Or.inr (Or.inr rfl)) rest) hlead d (fuel + 1)
      rw [skipBlank_cons (by decide)] at hr
      simp only [hstep, readMembers_end false hr, List.foldlM_cons, List.foldlM_nil]
      cases takeMember d m <;> rfl
    | moreMembers hm hmore =>
      rw [List.length_append, List.length_cons] at hfuel
      obtain ⟨fuel, rfl⟩ := Nat.exists_eq_succ_of_ne_zero (show fuel ≠ 0 by omega)
      rw [List.append_assoc, List.cons_append] at hlead
      obtain ⟨r, hr, hstep⟩ :=
        readMembers_member hm (ends_cons (Or.inl rfl) _) hlead d (fuel + 1)
      rw [skipBlank_cons (by decide)] at hr
      have hlater := fun d' => ih hmore (d := d') (leads_more hr) fuel (by omega)
      simp only [hstep, hlater, List.foldlM_cons]
      cases takeMember d m <;> rfl

end

theorem readRecord_opened {text r : List Char} (h : skipBlank text = '\x7b' :: r) :
    (readRecord text).toOption =
      (readMembers (r.length + 1) true {} r).toOption.bind fun p =>
        p.1.finish.toOption.bind fun t => (endObject p.2).toOption.map (t, ·) := by
  rw [readRecord, h]
  simp only [toOption_bind]
  refine Option.bind_congr fun p _ => ?_
  cases p.1.finish with
  | error e => rfl
  | ok t =>
    simp only [toOption_bind, toOption_ok, Option.bind_some]
    cases (endObject p.2).toOption <;> rfl

theorem takes_record {ms : List Member} {cs : List Char} (h : Spells (.value (.object ms)) cs) :
    TakesValue readRecord cs (recordOf? ms) := by
  intro rest text _ htext
  have hmembers : ∃ r, skipBlank text = '\x7b' :: r ∧
      (readMembers (r.length + 1) true {} r).toOption =
        (ms.foldlM takeMember {}).map (·, '}' :: rest) := by
    cases h with
    | emptyObject hb =>
      rw [enclosed_append] at htext
      have hend := skipBlank_append hb ('}' :: rest)
      rw [skipBlank_cons (by decide)] at hend
      exact ⟨_, htext, congrArg Except.toOption (readMembers_end true hend _)⟩
    | @object ms cs h =>
      rw [enclosed_append] at htext
      have hfuel : cs.length < (cs ++ '}' :: rest).length + 1 := by
        rw [List.length_append]
        omega
      exact ⟨_, htext, readMembers_members h hfuel (leads_first _)⟩
  obtain ⟨r, hopen, hmembers⟩ := hmembers
  rw [readRecord_opened hopen, hmembers, recordOf?, Option.bind_map]
  cases ms.foldlM takeMember {} with
  | none => rfl
  | some d =>
    simp only [Option.bind_some, Function.comp_def, endObject_close, toOption_ok]
    cases d.finish.toOption <;> rfl

theorem decode_of_takes {α : Type} {read : Read α} {cs : List Char} {a? : Option α}
    (h : TakesItem read cs a?) : (decode read cs).toOption = a? := by
  obtain ⟨r, hr, htake⟩ := h ends_nil (by rw [List.append_nil])
  have hwhole : (whole read cs).toOption = a? := by
    rw [whole, toOption_bind, htake]
    cases a? with
    | none => rfl
    | some a =>
      simp only [Option.map_some, Option.bind_some, hr]
      rfl
  rw [← hwhole, decode]
  cases whole read cs <;> rfl

theorem decode_members {ms : List Member} {text : List Char}
    (h : Spells (.item (.object ms)) text) :
    (decode readRecord text).toOption = recordOf? ms :=
  decode_of_takes (takes_item takes_record h)

end ToolRoster.Json
