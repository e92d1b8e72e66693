import Orchestrion.Proofs.Document.Json
import Orchestrion.Proofs.Document.Yaml.Reader
import Orchestrion.Document.Parser

set_option autoImplicit false

/-!
# What parsers report

A file is a text if its bytes are those of some characters.  Parsers that report every text
that is not written in their language are told apart from those that do not.  The parsers that
are run here do not; but each of their other faults has its cause in a word of the text.
-/

namespace Orchestrion.Document

variable {content : Bytes} {text : String} {fault : StrayFault}

/-! ## Text -/

/-- The bytes of some characters, one after the other. -/
def IsText (content : Bytes) : Prop :=
  ∃ chars : List Char, content = chars.flatMap String.utf8EncodeChar

theorem isText_iff_isValidUTF8 : IsText content ↔ ByteArray.IsValidUTF8 ⟨content.toArray⟩ := by
  have hbytes : (⟨content.toArray⟩ : ByteArray) = content.toByteArray := by
    rw [← List.data_toByteArray]
  rw [hbytes]
  constructor
  · rintro ⟨chars, rfl⟩
    exact ⟨chars, rfl⟩
  · rintro ⟨chars, h⟩
    refine ⟨chars, ?_⟩
    have hdata := congrArg (fun bytes => bytes.data.toList) h
    simpa [List.utf8Encode] using hdata

theorem textOf?_eq_none_iff : textOf? content = none ↔ ¬IsText content := by
  rw [isText_iff_isValidUTF8, textOf?, Option.map_eq_none_iff, String.fromUTF8?]
  split <;> simp_all

/-! ## Parsers -/

/-- Parsers that report every text that is not written in their language, so that nothing else
goes wrong in them on a text. -/
structure Parsers.ReportTexts (parsers : Parsers) : Prop where
  json (text : String) (fault : StrayFault) : parsers.json text ≠ .error (.stray fault)
  yaml (content : Bytes) (fault : StrayFault) :
    IsText content → parsers.yaml content ≠ .error (.stray fault)

/-- In JSON, the cause of a fault that is not reported is an integer of too many digits. -/
theorem Json.hasLongInteger_of_parse (h : Json.parse text = .error (.stray fault)) :
    fault = .outOfRange ∧ ∃ digits, HasLongInteger text.toList digits := by
  unfold parse at h
  split at h
  · cases h
  · cases h
  · rename_i digits hread
    cases h
    exact ⟨rfl, digits, hasLongInteger_of_read hread⟩

/-- In YAML, the cause of a fault that is not reported is that the bytes are no text, or that a
word of the text goes too far. -/
theorem Yaml.exceeds_of_parse (h : Yaml.parse content = .error (.stray fault)) :
    (fault = .notText ∧ ¬IsText content) ∨
      ∃ text, textOf? content = some text ∧
        ((fault = .outOfRange ∧ Exceeds text.toList .outOfRange) ∨
          (fault = .tooLarge ∧ Exceeds text.toList .tooLarge)) := by
  unfold parse at h
  split at h
  · rename_i htext
    cases h
    exact .inl ⟨rfl, textOf?_eq_none_iff.mp htext⟩
  · rename_i text htext
    right
    refine ⟨text, htext, ?_⟩
    split at h
    · cases h
    · cases h
    · rename_i hread
      cases h
      exact .inl ⟨rfl, (hasCause_of_read hread).resolve_left nofun⟩
    · rename_i hread
      cases h
      exact .inr ⟨rfl, (hasCause_of_read hread).resolve_left nofun⟩

end Orchestrion.Document
