import ToolRoster.Proofs.RegistryFile.ReadBack
import ToolRoster.Proofs.RegistryFile.Yields
/-!
# The written text as normal form

However a text spells its record, the record is written in one way only, and what is written decodes
to the record again. Only a record that no text decodes to, one with an empty fallback, changes.
-/
namespace ToolRoster

theorem Tool.normalized_eq (t : Tool) : t.normalized =
    { t with fallback := if t.fallback = some "" then none else t.fallback } := by
  by_cases h : t.fallback = some ""
  · simp [normalized, h, Option.filter]
  · rw [normalized_of_fallback_ne h, if_neg h]

namespace Json

def recordBytes (t : Tool) : ByteArray := (String.ofList (writeRecord t)).toUTF8

theorem recordBytes_eq_iff {t u : Tool} : recordBytes t = recordBytes u ↔ writeRecord t = writeRecord u := by
  constructor
  · intro h
    have hstring := congrArg String.fromUTF8? h
    rw [recordBytes, recordBytes, fromUTF8?_toUTF8, fromUTF8?_toUTF8] at hstring
    exact String.ofList_injective (Option.some.inj hstring)
  · intro h
    rw [recordBytes, h, recordBytes]

theorem decode_writeRecord (t : Tool) : decode readRecord (writeRecord t) = .ok t.normalized :=
  decode_of_reads (reads_record t)

theorem normalized_of_decode {text : List Char} {t : Tool} (h : decode readRecord text = .ok t) :
    t.normalized = t :=
  Tool.normalized_of_fallback_ne (yields_decode yields_readRecord text t h)

theorem decode_writeRecord_of_decode {text : List Char} {t : Tool}
    (h : decode readRecord text = .ok t) : decode readRecord (writeRecord t) = .ok t := by
  rw [decode_writeRecord, normalized_of_decode h]

/-- Writing a record that has been decoded, from whatever text, gives a text that decodes to it and is
written the same again, and different records are written differently. -/
theorem written_normal_form :
    (∀ (text : List Char) (t : Tool), decode readRecord text = .ok t →
      decode readRecord (writeRecord t) = .ok t ∧
        ∀ u, decode readRecord (writeRecord t) = .ok u → recordBytes u = recordBytes t) ∧
    (∀ (text text' : List Char) (t t' : Tool), decode readRecord text = .ok t →
      decode readRecord text' = .ok t' → (t = t' ↔ recordBytes t = recordBytes t')) ∧
    ∀ t : Tool, decode readRecord (writeRecord t) =
      .ok { t with fallback := if t.fallback = some "" then none else t.fallback } := by
  refine ⟨fun text t h => ?_, fun text text' t t' h h' => ?_, fun t => ?_⟩
  · have hwritten := decode_writeRecord_of_decode h
    refine ⟨hwritten, fun u hu => ?_⟩
    rw [hwritten] at hu
    rw [Except.ok.inj hu]
  · refine ⟨congrArg recordBytes, fun hbytes => ?_⟩
    have ht := decode_writeRecord_of_decode h
    rw [recordBytes_eq_iff.mp hbytes, decode_writeRecord_of_decode h'] at ht
    exact (Except.ok.inj ht).symm
  · rw [decode_writeRecord, Tool.normalized_eq]

theorem written_normal_form_array :
    let array := "[\"rg\", true,\"\\u0064ebug\"]".toList
    let object := "\x7b\"fallback\":\"\",\"name\":\"rg\",\"x\":[],\"capability\":\x7b\"debug\":null\x7d\x7d".toList
    let t : Tool := { name := "rg", capability := .debug, available := true }
    let u : Tool := { name := "rg", capability := .debug }
    decode readRecord array = .ok t ∧ decode readRecord object = .ok u ∧
      decode readRecord (writeRecord t) = .ok t ∧
      (∀ v, decode readRecord (writeRecord t) = .ok v → recordBytes v = recordBytes t) ∧
      (t = u ↔ recordBytes t = recordBytes u) := by
  intro array object t u
  have harray : decode readRecord array = .ok t := rfl
  have hobject : decode readRecord object = .ok u := rfl
  obtain ⟨hwritten, hagain⟩ := written_normal_form.1 array t harray
  exact ⟨harray, hobject, hwritten, hagain, written_normal_form.2.1 array object t u harray hobject⟩

end Json
end ToolRoster
