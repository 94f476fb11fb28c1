import ToolRoster.Decode.Problem
import ToolRoster.Proofs.Text.Trimming
/-!
# How a capability is written

White space around a word and the case of its letters do not matter to a reader of words; a registry
file has to give the word as it is. So what a file may say is read the same, and what else is read is
just what is not trimmed or not small.
-/
namespace ToolRoster

namespace Capability
open Text (IsBlank IsTrimmed SameButCase)

/-- A text that is the capability's word in some ASCII case, with any white space around it. -/
def Written (c : Capability) (s : String) : Prop :=
  ∃ before word after, s.toList = before ++ word ++ after ∧ IsBlank before ∧
    SameButCase word c.word.toList ∧ IsBlank after

theorem foldCase_word (c : Capability) : c.word.toList.map Char.toLower = c.word.toList := by
  cases c <;> decide

theorem isTrimmed_word (c : Capability) : IsTrimmed c.word.toList := by
  cases c <;> decide

theorem word_injective {c d : Capability} (h : c.word = d.word) : c = d := by
  have hfound := ofWord?_word c
  rw [h, ofWord?_word] at hfound
  exact (Option.some.inj hfound).symm

theorem parse_eq_ok_iff {s : String} {c : Capability} :
    parse s = .ok c ↔ foldCase (Text.trim s.toList) = c.word.toList := by
  have hone : ∀ d : Capability, d.word.toList = c.word.toList ↔ d = c := fun d =>
    ⟨fun h => word_injective (String.toList_injective h), fun h => h ▸ rfl⟩
  unfold parse
  simp only
  split
  · rename_i d hd
    have hword : d.word.toList = foldCase (Text.trim s.toList) := by simpa using List.find?_some hd
    rw [← hword, hone, Except.ok.injEq]
  · rename_i hnone
    have hno := List.find?_eq_none.mp hnone c (mem_all c)
    constructor
    · exact fun h => by contradiction
    · exact fun h => absurd (decide_eq_true h.symm) hno

theorem parse_eq_error {s : String} (h : ∀ c, parse s ≠ .ok c) : parse s = .error ⟨s⟩ := by
  unfold parse at h ⊢
  simp only at h ⊢
  split
  · rename_i c hc
    simp [hc] at h
  · rfl

theorem written_iff {s : String} {c : Capability} : c.Written s ↔ parse s = .ok c := by
  rw [parse_eq_ok_iff]
  constructor
  · rintro ⟨before, word, after, hs, hbefore, hword, hafter⟩
    rw [Text.sameButCase_iff_of_small (foldCase_word c)] at hword
    rw [hs, Text.trim_append hbefore hafter, foldCase, ← Text.trim_map_toLower, hword,
      Text.trim_eq_self (isTrimmed_word c)]
  · intro h
    obtain ⟨before, after, hbefore, hafter, hs⟩ := Text.exists_trim s.toList
    exact ⟨before, _, after, hs, hbefore,
      (Text.sameButCase_iff_of_small (foldCase_word c)).mpr h, hafter⟩

theorem toOption_parse_congr {s t : String}
    (h : foldCase (Text.trim s.toList) = foldCase (Text.trim t.toList)) :
    (parse s).toOption = (parse t).toOption := by
  have hok : ∀ c, parse s = .ok c ↔ parse t = .ok c := fun c => by
    rw [parse_eq_ok_iff, parse_eq_ok_iff, h]
  cases hs : parse s with
  | ok c => rw [(hok c).mp hs]
  | error e =>
    cases ht : parse t with
    | ok c => exact absurd ((hok c).mpr ht) (by simp [hs])
    | error e' => rfl

theorem decode_eq_ok_iff {s : String} {c : Capability} :
    Decode.capability s = .ok c ↔ s = c.word := by
  unfold Decode.capability
  constructor
  · intro h
    split at h
    · rename_i d hd
      rw [← Except.ok.inj h, word_of_ofWord? hd]
    · contradiction
  · rintro rfl
    rw [ofWord?_word]

/-- A text in the form that a file asks for: no capital of ASCII, and no white space around. -/
def IsPlain (s : String) : Prop := (∀ l ∈ Text.letters, l.1 ∉ s.toList) ∧ IsTrimmed s.toList

instance (s : String) : Decidable (IsPlain s) :=
  @instDecidableAnd _ _ (List.decidableBAll _ _) inferInstance

theorem isPlain_word (c : Capability) : IsPlain c.word := by
  cases c <;> decide

theorem foldCase_eq_self {cs : List Char} (h : ∀ l ∈ Text.letters, l.1 ∉ cs) : foldCase cs = cs := by
  have hsmall : cs.map Char.toLower = cs.map id := by
    refine List.map_congr_left fun x hx => ?_
    rcases Text.mem_letters_or x with hmem | hlow
    · exact absurd hx (h _ hmem)
    · exact hlow
  rw [foldCase, hsmall, List.map_id]

theorem decode_eq_ok_iff_isPlain {s : String} {c : Capability} (h : parse s = .ok c) :
    Decode.capability s = .ok c ↔ IsPlain s := by
  rw [decode_eq_ok_iff]
  constructor
  · rintro rfl
    exact isPlain_word c
  · rintro ⟨hsmall, htrimmed⟩
    rw [parse_eq_ok_iff, Text.trim_eq_self htrimmed, foldCase_eq_self hsmall] at h
    exact String.toList_injective h

/-- A text is read as a capability if and only if it is the capability's word up to ASCII case, with
any white space around it, and then as no other capability; any other text is refused and named as it
is. So white space around a text and the case of its letters do not matter; the word that shows a
capability is read as it; and so is what a registry file may say, which is the plain form of what is
read. -/
theorem parse_written (s : String) :
    (∀ c, parse s = .ok c ↔ c.Written s) ∧ (∀ c d, Written c s → Written d s → c = d) ∧
    ((∀ c, ¬Written c s) → parse s = .error ⟨s⟩) ∧
    (∀ before after, IsBlank before → IsBlank after →
      (parse (.ofList (before ++ s.toList ++ after))).toOption = (parse s).toOption) ∧
    (∀ t : String, SameButCase t.toList s.toList → (parse t).toOption = (parse s).toOption) ∧
    (∀ c : Capability, parse c.word = .ok c) ∧
    (∀ c, Decode.capability s = .ok c → parse s = .ok c) ∧
    ∀ c, parse s = .ok c → (Decode.capability s = .ok c ↔ IsPlain s) := by
  have hself : ∀ c : Capability, parse c.word = .ok c := by
    intro c
    rw [parse_eq_ok_iff, Text.trim_eq_self (isTrimmed_word c)]
    exact foldCase_word c
  refine ⟨fun c => written_iff.symm, fun c d hc hd => ?_, fun h => ?_, fun before after hb ha => ?_,
    fun t ht => ?_, hself, fun c hc => ?_, fun c => decode_eq_ok_iff_isPlain⟩
  · rw [written_iff] at hc hd
    exact Except.ok.inj (hc.symm.trans hd)
  · exact parse_eq_error fun c hc => h c (written_iff.mpr hc)
  · apply toOption_parse_congr
    rw [String.toList_ofList, Text.trim_append hb ha]
  · apply toOption_parse_congr
    rw [foldCase, foldCase, ← Text.trim_map_toLower, ← Text.trim_map_toLower,
      Text.sameButCase_iff.mp ht]
  · rw [decode_eq_ok_iff] at hc
    rw [hc, hself]

theorem parse_written_wide :
    let s := "\u3000\u2003ReSeaRCH\u0085\t"
    let t := " analys\u0130s"
    parse s = .ok .research ∧ Decode.capability s ≠ .ok .research ∧ parse t = .error ⟨t⟩ ∧
      (parse (.ofList (['\u1680'] ++ s.toList ++ ['\n']))).toOption = some .research := by
  intro s t
  have hs : parse s = .ok .research := by decide
  refine ⟨hs, ?_, ?_, ?_⟩
  · rw [ne_eq, (parse_written s).2.2.2.2.2.2.2 .research hs]
    decide
  · apply (parse_written t).2.2.1
    intro c hc
    rw [← (parse_written t).1 c] at hc
    revert hc
    cases c <;> decide
  · rw [(parse_written s).2.2.2.1 ['\u1680'] ['\n'] (by decide) (by decide), hs]
    rfl

end Capability
end ToolRoster
