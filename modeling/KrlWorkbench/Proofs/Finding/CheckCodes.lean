import KrlWorkbench.Proofs.Finding.Agreement
import Mathlib.Data.List.Pairwise

/-!
# What the checks report

A report is what the checks find, one after the other.  No two checks share a code, so the code of a
finding tells the check that it comes from (`Finding.mem_of_mem_report`).  What is to be said about
findings of a code in a report can then be said about a single check.
-/

namespace KrlWorkbench

open List Text

namespace Finding

/-- What each check finds, with the codes of the check, in the order of a report. -/
def checks (text : Text) (isSystemFile : Bool) (view : WorkspaceView) (options : Options) :
    List (List FindingCode × List Finding) :=
  codeChecks (.ofText text view) isSystemFile ++
    [([.nonAsciiCharacter], if options.nonAsciiWarnings then nonAscii (.ofText text view) else [])]

section Report

variable {text : Text} {isSystemFile : Bool} {view : WorkspaceView} {options : Options}
  {check : List FindingCode × List Finding} {codes : List FindingCode} {f : Finding}

lemma report_eq_flatMap (text : Text) (isSystemFile : Bool) (view : WorkspaceView)
    (options : Options) :
    report text isSystemFile view options =
      (checks text isSystemFile view options).flatMap (·.2) := by
  simp only [report, withoutRepeats_undeclared, checks, codeChecks, flatMap_append, flatMap_cons,
    flatMap_nil, append_nil, append_assoc]

/-- Only the check for characters outside ASCII looks past the code. -/
lemma reports_of_mem_checks (h : check ∈ checks text isSystemFile view options) :
    (∀ f ∈ check.2, f.cause.code ∈ check.1 ∧
      MarksOneOf (.ofText text view) (Context.ofText text view).lines f) ∨
      check.1 = [.nonAsciiCharacter] ∧ check.2 ⊆ nonAscii (.ofText text view) := by
  rcases mem_append.mp h with h | h
  · have hself := forall₂_same.mp (forall₂_codeChecks (Context.agrees_refl _) isSystemFile) check h
    exact .inl fun f hf => ⟨hself.2.code_mem f hf, hself.2.marks f hf⟩
  · obtain rfl := mem_singleton.mp h
    refine .inr ⟨rfl, ?_⟩
    dsimp only
    split
    · exact List.Subset.refl _
    · exact nil_subset _

lemma code_mem_of_mem_checks
    (h : check ∈ checks text isSystemFile view options) (hf : f ∈ check.2) :
    f.cause.code ∈ check.1 := by
  rcases reports_of_mem_checks h with hreports | ⟨hcodes, hsub⟩
  · exact (hreports f hf).1
  · obtain ⟨line, -, hf⟩ := mem_flatMap.mp (hsub hf)
    obtain ⟨run, -, rfl⟩ := mem_map.mp hf
    rw [hcodes]
    exact mem_cons_self

lemma nodup_codes (text : Text) (isSystemFile : Bool) (view : WorkspaceView) (options : Options) :
    ((checks text isSystemFile view options).flatMap (·.1)).Nodup := by
  change FindingCode.all.Nodup
  decide

variable {i : Nat} {fs : List Finding}
  (hcheck : (checks text isSystemFile view options)[i]? = some (codes, fs))
include hcheck

/-- **A check finds what the report holds of its codes.** -/
lemma filter_report :
    (report text isSystemFile view options).filter (·.cause.code ∈ codes) = fs := by
  obtain ⟨before, after, hsplit⟩ := append_of_mem (mem_of_getElem? hcheck)
  have hapart := nodup_codes text isSystemFile view options
  rw [hsplit, flatMap_append, flatMap_cons] at hapart
  have hcodes : ∀ check ∈ before ++ (codes, fs) :: after, ∀ f ∈ check.2, f.cause.code ∈ check.1 :=
    fun check h _ => code_mem_of_mem_checks (hsplit ▸ h)
  have hother : ∀ others : List (List FindingCode × List Finding),
      (∀ check ∈ others, ∀ f ∈ check.2, f.cause.code ∈ check.1) →
      (others.flatMap (·.1)).Disjoint codes →
      (others.flatMap (·.2)).filter (·.cause.code ∈ codes) = [] := by
    intro others hothers hdisjoint
    refine filter_eq_nil_iff.mpr fun f hf hcode => ?_
    obtain ⟨check, hmem, hf⟩ := mem_flatMap.mp hf
    exact hdisjoint (mem_flatMap.mpr ⟨check, hmem, hothers check hmem f hf⟩)
      (of_decide_eq_true hcode)
  have hself : fs.filter (·.cause.code ∈ codes) = fs :=
    filter_eq_self.mpr fun f hf => decide_eq_true (hcodes (codes, fs) (by simp) f hf)
  rw [report_eq_flatMap, hsplit, flatMap_append, flatMap_cons, filter_append,
    filter_append, hself,
    hother before (fun check h => hcodes check (mem_append_left _ h))
      fun _ hb hc => disjoint_of_nodup_append hapart hb (mem_append_left _ hc),
    hother after (fun check h => hcodes check (by simp [h]))
      fun _ ha hc => disjoint_of_nodup_append (nodup_append.mp hapart).2.1 hc ha,
    nil_append, append_nil]

/-- **The code of a finding tells its check.** -/
lemma mem_of_mem_report (hf : f ∈ report text isSystemFile view options)
    (hcode : f.cause.code ∈ codes) : f ∈ fs := by
  rw [← filter_report hcheck]
  exact mem_filter.mpr ⟨hf, decide_eq_true hcode⟩

end Report
end Finding

/-! ## Diagnostics -/

open List Finding

/-- Whether a diagnostic is about the name, in either case. -/
def Diagnostic.isAbout (n : Text) (d : Diagnostic) : Bool :=
  (d.dataText? "varName").any (Text.sameName · n)

lemma FindingCode.ofText?_text (code : FindingCode) : ofText? code.text = some code := by
  cases code <;> rfl

lemma Diagnostic.code?_ofFinding (locale : Locale) (f : Finding) :
    (ofFinding locale f).code? = some f.cause.code :=
  FindingCode.ofText?_text f.cause.code

section Published

variable {text : Text} {isSystemFile : Bool} {view : WorkspaceView} {options : Options}
  {codes : List FindingCode} {i : Nat} {f : Finding} {fs : List Finding}
  (hcheck : (checks text isSystemFile view options)[i]? = some (codes, fs))
include hcheck

lemma mem_diagnose_of_mem_check (hf : f ∈ fs) :
    Diagnostic.ofFinding options.locale f ∈ diagnose text isSystemFile view options := by
  refine mem_map_of_mem ?_
  rw [report_eq_flatMap]
  exact mem_flatMap.mpr ⟨(codes, fs), mem_of_getElem? hcheck, hf⟩

/-- A published diagnostic comes from the check that its code tells. -/
lemma exists_finding_of_mem_diagnose {d : Diagnostic} {code : FindingCode}
    (hd : d ∈ diagnose text isSystemFile view options) (hcode : d.code? = some code)
    (hmem : code ∈ codes) :
    ∃ f ∈ fs, f.cause.code = code ∧ d = Diagnostic.ofFinding options.locale f := by
  obtain ⟨f, hf, rfl⟩ := mem_map.mp hd
  obtain rfl := Option.some.inj ((Diagnostic.code?_ofFinding options.locale f).symm.trans hcode)
  exact ⟨f, mem_of_mem_report hcheck hf hmem, rfl, rfl⟩

end Published

end KrlWorkbench
