import KrlWorkbench.Proofs.Finding.DistinctPlaces
import KrlWorkbench.Wire.Service
import Mathlib.Data.List.Forall2

/-!
# The language of messages changes messages only

The language comes in twice while a document is checked: findings of the same range and the same
message are dropped, and messages are rendered.  The first changes nothing in any language, since
undeclared names have ranges of their own (`Finding.withoutRepeats_undeclared`), so a document has
the same findings in all of them (`Finding.report_eq_of_locale`).  Rendering sets the message and
nothing else.

The fixes for a diagnostic are chosen by its code, its data and its range.  A diagnostic that is
told in another language (`Diagnostic.retold`) gets the same fixes, and they quote it in that
language (`QuickFix.forDiagnostic_retold`).
-/

namespace KrlWorkbench

open List Text

/-! ## Diagnostics in two languages -/

/-- Diagnostics that agree in everything but their messages. -/
structure Diagnostic.SameButMessage (d e : Diagnostic) : Prop where
  range : e.range = d.range
  severity : e.severity = d.severity
  code : e.code = d.code
  codeDescription : e.codeDescription = d.codeDescription
  source : e.source = d.source
  relatedInformation : e.relatedInformation = d.relatedInformation
  tags : e.tags = d.tags
  data : e.data = d.data

/-- The diagnostic with another message. -/
def Diagnostic.retold (d : Diagnostic) (message : String) : Diagnostic :=
  { d with message := message }

lemma Diagnostic.SameButMessage.eq_retold {d e : Diagnostic} (h : d.SameButMessage e) :
    e = d.retold e.message := by
  obtain ⟨range, severity, code, codeDescription, source, message, related, tags, data⟩ := e
  obtain ⟨rfl, rfl, rfl, rfl, rfl, rfl, rfl, rfl⟩ := h
  rfl

lemma Diagnostic.sameButMessage_ofFinding (locale locale' : Locale) (f : Finding) :
    (ofFinding locale f).SameButMessage (ofFinding locale' f) :=
  ⟨rfl, rfl, rfl, rfl, rfl, rfl, rfl, rfl⟩

lemma Finding.report_eq_of_locale (text : Text) (isSystemFile : Bool) (view : WorkspaceView)
    (locale locale' : Locale) (nonAsciiWarnings : Bool) :
    report text isSystemFile view ⟨locale, nonAsciiWarnings⟩ =
      report text isSystemFile view ⟨locale', nonAsciiWarnings⟩ := by
  simp only [report, withoutRepeats_undeclared]

lemma forall₂_diagnose (text : Text) (isSystemFile : Bool) (view : WorkspaceView)
    (locale locale' : Locale) (nonAsciiWarnings : Bool) :
    List.Forall₂ Diagnostic.SameButMessage
      (diagnose text isSystemFile view ⟨locale, nonAsciiWarnings⟩)
      (diagnose text isSystemFile view ⟨locale', nonAsciiWarnings⟩) := by
  rw [diagnose, diagnose, Finding.report_eq_of_locale text isSystemFile view locale' locale,
    forall₂_map_left_iff, forall₂_map_right_iff, forall₂_same]
  exact fun f _ => Diagnostic.sameButMessage_ofFinding locale locale' f

/-! ## Fixes in two languages -/

namespace QuickFix

/-- Fixes that agree in everything but the diagnostics they quote: in title, edit and preference,
and in every other part that is sent of them, such as their kind. -/
structure SameButDiagnostic (f g : QuickFix) : Prop where
  title : g.title = f.title
  edit : g.edit = f.edit
  isPreferred : g.isPreferred = f.isPreferred
  sent : ∀ u key, key ≠ "diagnostics" →
    (Wire.quickFix u g).get? key = (Wire.quickFix u f).get? key

/-- The fix, for another diagnostic. -/
def about (d : Diagnostic) (f : QuickFix) : QuickFix :=
  { f with diagnostic := d }

lemma sameButDiagnostic_about (d : Diagnostic) (f : QuickFix) :
    f.SameButDiagnostic (f.about d) where
  title := rfl
  edit := rfl
  isPreferred := rfl
  sent u key hkey := by
    have hother : (key == "diagnostics") = false := beq_eq_false_iff_ne.mpr hkey
    simp [Wire.quickFix, Json.get?, about, lookup_cons, hother]

variable (text : Text) (d : Diagnostic) (message : String)

lemma forShouldBeReal_retold : forShouldBeReal text (d.retold message) =
    (forShouldBeReal text d).map (about (d.retold message)) := by
  have hdata : ∀ key, (d.retold message).dataText? key = d.dataText? key := fun _ => rfl
  rw [forShouldBeReal, forShouldBeReal, hdata, hdata]
  split
  case h_1 name value _ _ =>
    cases typeRange? text name <;> cases Number.read? value <;> rfl
  case h_2 => rfl

lemma forGlobalNotPublic_retold : forGlobalNotPublic text (d.retold message) =
    (forGlobalNotPublic text d).map (about (d.retold message)) := by
  have hrange : globalRange? text (d.retold message) = globalRange? text d := rfl
  rw [forGlobalNotPublic, forGlobalNotPublic, hrange]
  cases globalRange? text d <;> cases privateList? text.lines <;> rfl

lemma forUndefined_retold : forUndefined text (d.retold message) =
    (forUndefined text d).map (about (d.retold message)) := by
  have hdata : (d.retold message).dataText? "varName" = d.dataText? "varName" := rfl
  have hrange : (d.retold message).range = d.range := rfl
  simp only [forUndefined, hdata, hrange]
  split
  case h_1 => rfl
  case h_2 => rfl

lemma forSpeed_retold : forSpeed (d.retold message) =
    (forSpeed d).map (about (d.retold message)) := by
  have hdata : (d.retold message).dataNumber? "limit" = d.dataNumber? "limit" := rfl
  rw [forSpeed, forSpeed, hdata]
  cases d.dataNumber? "limit" <;> rfl

/-- **Fixes do not read messages.**  A diagnostic told in other words gets the same fixes. -/
lemma forDiagnostic_retold : forDiagnostic text (d.retold message) =
    (forDiagnostic text d).map (about (d.retold message)) := by
  have hcode : (d.retold message).code? = d.code? := rfl
  rw [forDiagnostic, forDiagnostic, hcode]
  split
  · exact forShouldBeReal_retold text d message
  · rfl
  · exact forGlobalNotPublic_retold text d message
  · exact forUndefined_retold text d message
  · exact forSpeed_retold d message
  · exact forSpeed_retold d message
  · rfl
  · rfl

lemma forall₂_forDiagnostic {d e : Diagnostic} (h : d.SameButMessage e) :
    List.Forall₂ SameButDiagnostic (forDiagnostic text d) (forDiagnostic text e) := by
  rw [h.eq_retold, forDiagnostic_retold, forall₂_map_right_iff, forall₂_same]
  exact fun f _ => sameButDiagnostic_about _ f

/-- **The language of messages changes messages only.**  In any two languages a document gets
equally many diagnostics, which agree one by one in all but their messages; and for these there are
equally many fixes, which agree one by one in all but the diagnostics they quote. -/
theorem diagnose_offer_same_in_all_languages (text : Text) (isSystemFile : Bool)
    (view : WorkspaceView) (nonAsciiWarnings : Bool) (locale locale' : Locale) :
    List.Forall₂ Diagnostic.SameButMessage
      (diagnose text isSystemFile view ⟨locale, nonAsciiWarnings⟩)
      (diagnose text isSystemFile view ⟨locale', nonAsciiWarnings⟩) ∧
    List.Forall₂ SameButDiagnostic
      (offer text (diagnose text isSystemFile view ⟨locale, nonAsciiWarnings⟩))
      (offer text (diagnose text isSystemFile view ⟨locale', nonAsciiWarnings⟩)) := by
  have hdiagnostics := forall₂_diagnose text isSystemFile view locale locale' nonAsciiWarnings
  exact ⟨hdiagnostics, rel_flatMap hdiagnostics fun _ _ h => forall₂_forDiagnostic text h⟩

end QuickFix
end KrlWorkbench
