import ToolRoster.Proofs.Json.Records
/-!
# Printable strings and how they are written

A string of printable ASCII is written with two escapes only, the ones that all formats share.
-/
namespace ToolRoster
namespace Text

def isPrintable (c : Char) : Bool := 0x20 ≤ c.toNat && c.toNat ≤ 0x7E

theorem isPrintable_iff {c : Char} : isPrintable c ↔ 0x20 ≤ c.toNat ∧ c.toNat ≤ 0x7E := by
  simp only [isPrintable, Bool.and_eq_true, decide_eq_true_eq]

def Printable (s : String) : Prop := ∀ c ∈ s.toList, isPrintable c

instance (s : String) : Decidable (Printable s) := List.decidableBAll _ _

end Text

def Tool.Printable (t : Tool) : Prop :=
  Text.Printable t.name ∧ (∀ f ∈ t.fallback, Text.Printable f) ∧ ∀ u ∈ t.useCases, Text.Printable u

instance (t : Tool) : Decidable t.Printable := by unfold Tool.Printable; infer_instance

namespace Decode

theorem mapM_eq_ok {α β ε : Type} {f : α → Except ε β} {g : α → β} {xs : List α}
    (h : ∀ x ∈ xs, f x = .ok (g x)) : xs.mapM f = .ok (xs.map g) := by
  induction xs with
  | nil => rfl
  | cons x xs ih =>
    obtain ⟨hx, hxs⟩ := List.forall_mem_cons.mp h
    simp only [List.mapM_cons, hx, ih hxs, bind, Except.bind]
    rfl

/-- A setting that is written without other than printable strings. -/
def Setting.Printable : Setting → Prop
  | .name s => Text.Printable s
  | .available _ => True
  | .capability _ => True
  | .fallback f => ∃ s ∈ f, Text.Printable s
  | .useCases us => ∀ u ∈ us, Text.Printable u

theorem printable_settings {t : Tool} (h : t.Printable) : ∀ x ∈ settings t, x.Printable := by
  obtain ⟨hname, hfallback, huses⟩ := h
  intro x hx
  rw [settings, List.mem_append, List.mem_append] at hx
  rcases hx with (hx | hx) | hx
  · simp only [List.mem_cons, List.not_mem_nil, or_false] at hx
    rcases hx with rfl | rfl | rfl
    · exact hname
    · exact trivial
    · exact trivial
  · cases hf : t.fallback with
    | none =>
      rw [hf] at hx
      contradiction
    | some f =>
      rw [hf] at hx
      obtain rfl := List.mem_singleton.mp hx
      exact ⟨f, rfl, hfallback f hf⟩
  · split_ifs at hx
    · contradiction
    · obtain rfl := List.mem_singleton.mp hx
      exact huses

theorem printable_key (f : Field) : Text.Printable f.key := by cases f <;> decide

theorem printable_word (c : Capability) : Text.Printable c.word := by cases c <;> decide

end Decode

namespace Json

theorem escape_of_printable {c : Char} (h : Text.isPrintable c) :
    escape c = if c = '"' ∨ c = '\\' then ['\\', c] else [c] := by
  obtain ⟨hlow, -⟩ := Text.isPrintable_iff.mp h
  have hne : ∀ x : Char, x.toNat < 0x20 → c ≠ x := by
    rintro x hx rfl
    omega
  rw [escape, if_neg (hne _ (by decide)), if_neg (hne _ (by decide)), if_neg (hne _ (by decide)),
    if_neg (hne _ (by decide)), if_neg (hne _ (by decide)), if_neg (Nat.not_lt.mpr hlow)]
  simp only [Bool.or_eq_true, decide_eq_true_eq]

end Json
end ToolRoster
