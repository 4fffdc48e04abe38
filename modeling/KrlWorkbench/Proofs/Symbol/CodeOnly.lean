import KrlWorkbench.Proofs.Code.Columns
import KrlWorkbench.Proofs.Text.Lines
import KrlWorkbench.Symbol.Collect

/-!
# Declarations depend on the code alone

Two documents have the same code when their lines, comments cut off, are the same.  Comments and
line ends move the byte offsets of everything behind them, so equal code does not mean equal
offsets; it means equal ranges, as long as a range stays inside the code of its line
(`SameCode.sameSpans`).  Every range that a declaration gets does, so documents with the same code
declare the same symbols at the same places (`collect_eq_of_sameCode`).
-/

namespace KrlWorkbench

open List Code LineRule Text

/-- The documents have the same number of lines, and the same code in each. -/
def SameCode (t t' : Text) : Prop :=
  t.lines.map codePart = t'.lines.map codePart

instance (t t' : Text) : Decidable (SameCode t t') :=
  inferInstanceAs (Decidable (_ = _))

/-- The columns of the code of a line are the same places in both documents. -/
def SameSpans (t t' : Text) (line : Nat) (code : Text) : Prop :=
  ∀ column length, column + length ≤ byteLength code →
    t'.span line column length = t.span line column length

variable {t t' : Text}

namespace SameCode

lemma sameSpans (h : SameCode t t') {line : Nat} {code : Text}
    (hline : (t.lines.map codePart)[line]? = some code) : SameSpans t t' line code := by
  have hline' := hline
  rw [h] at hline'
  rw [getElem?_map, Option.map_eq_some_iff] at hline hline'
  obtain ⟨raw, hraw, hcode⟩ := hline
  obtain ⟨raw', hraw', hcode'⟩ := hline'
  have htake : ∀ raw n, codePart raw = code → n ≤ byteLength code →
      takeBytes n raw = takeBytes n code := by
    rintro raw n rfl hn
    obtain ⟨comment, hcomment⟩ := codePart_isPrefix raw
    conv_lhs => rw [← hcomment]
    exact takeBytes_append_of_le hn _
  have hlen : ∀ raw, codePart raw = code → byteLength code ≤ byteLength raw := by
    rintro raw rfl
    exact byteLength_le_of_isPrefix (codePart_isPrefix raw)
  intro column length hle
  have hstart : column ≤ byteLength code := by omega
  rw [span_eq hraw (hle.trans (hlen raw hcode)), span_eq hraw' (hle.trans (hlen raw' hcode')),
    htake raw _ hcode hstart, htake raw _ hcode hle, htake raw' _ hcode' hstart,
    htake raw' _ hcode' hle]

end SameCode

/-! ## The declarations of a line -/

section Line

variable {line : Nat} {code : Text} (h : SameSpans t t' line code)
include h

lemma SameSpans.span_capture {c : Capture} (hc : c.Inside code) :
    t'.span line c.start (byteLength c.text) = t.span line c.start (byteLength c.text) :=
  h _ _ hc.stop_le

lemma Routine.ofHeader?_eq : Routine.ofHeader? t' code line = Routine.ofHeader? t code line := by
  have hparts : ∀ isGlobal returnType (name : Capture) params, name.Inside code →
      Routine.ofParts t' line isGlobal returnType name params =
        Routine.ofParts t line isGlobal returnType name params := by
    intro isGlobal returnType name params hname
    rw [Routine.ofParts, Routine.ofParts, h.span_capture hname]
  rw [Routine.ofHeader?, Routine.ofHeader?]
  cases hfound : functionHeader.find? code with
  | some found =>
    refine Option.map_congr fun name hname => hparts _ _ _ _ ?_
    exact (Pattern.matches_of_find? hfound).inside.group? hname
  | none =>
    cases hfound : routineHeader.find? code with
    | none => rfl
    | some found =>
      change (found.group? 2).bind _ = (found.group? 2).bind _
      refine Option.bind_congr fun name hname => ?_
      rw [hparts _ _ _ _ ((Pattern.matches_of_find? hfound).inside.group? hname)]

lemma Symbol.ofTypeDefinition_eq {found : Match} (hfound : found.Inside code) :
    Symbol.ofTypeDefinition t' line found = Symbol.ofTypeDefinition t line found := by
  rw [Symbol.ofTypeDefinition, Symbol.ofTypeDefinition]
  cases hname : found.group? 4 with
  | none => rfl
  | some name => simp only [h.span_capture (hfound.group? hname)]

lemma Symbol.ofSignal_eq {found : Match} (hfound : found.Inside code) :
    Symbol.ofSignal t' line found = Symbol.ofSignal t line found := by
  rw [Symbol.ofSignal, Symbol.ofSignal]
  cases hname : found.group? 2 with
  | none => rfl
  | some name => simp only [h.span_capture (hfound.group? hname)]

lemma Symbol.ofTypedList_eq {types : List Text} {parts : TypedList}
    (hparts : TypedList.ofCode? types code = some parts) :
    Symbol.ofTypedList t' line parts = Symbol.ofTypedList t line parts := by
  refine filterMap_congr fun item hitem => ?_
  simp only [h _ _ (TypedList.name_stop_le hparts hitem)]

lemma Symbol.ofLine_eq (types : List Text) :
    Symbol.ofLine t' types line code = Symbol.ofLine t types line code := by
  rw [Symbol.ofLine, Symbol.ofLine, Routine.ofHeader?_eq h]
  cases Routine.ofHeader? t code line with
  | some r => rfl
  | none =>
    cases htype : typeDefinition.find? code with
    | some found => exact ofTypeDefinition_eq h (Pattern.matches_of_find? htype).inside
    | none =>
      cases hsignal : signal.find? code with
      | some found => exact ofSignal_eq h (Pattern.matches_of_find? hsignal).inside
      | none =>
        cases hlist : TypedList.ofCode? types code with
        | some parts => exact ofTypedList_eq h hlist
        | none => rfl

end Line

/-! ## The declarations of a document -/

lemma TypeDefinition.keysOf_eq (h : SameCode t t') : keysOf t'.lines = keysOf t.lines := by
  have hkeys : ∀ lines, keysOf lines = (lines.map codePart).filterMap fun code =>
      (typeDefinition.find? code).map fun found => upper (found.text 4) := by
    intro lines
    rw [filterMap_map]
    rfl
  rw [hkeys, hkeys, h]

lemma TypeDefinition.collect_eq (h : SameCode t t') (known : List Text) :
    collect t' known = collect t known := by
  have hdefs : ∀ (lines : List Text) known, lines.filterMap (ofLine? known) =
      (lines.map codePart).filterMap fun code =>
        (typeDefinition.find? code).map fun found =>
          ⟨found.text 4, membersOf known (isEnumeration found) (found.text 5),
            isEnumeration found⟩ := by
    intro lines known
    rw [filterMap_map]
    rfl
  rw [collect, collect, keysOf_eq h, hdefs, hdefs, h]

namespace SymbolTable

lemma codeLines_eq (t : Text) :
    codeLines t = ((t.lines.map codePart).zipIdx.map fun (code, i) => (i, code)).filter
      fun (_, code) => !allBlank code := by
  rw [codeLines, zipIdx_map, map_map]
  rfl

lemma getElem?_of_mem_codeLines {entry : Nat × Text} (h : entry ∈ codeLines t) :
    (t.lines.map codePart)[entry.1]? = some entry.2 := by
  rw [codeLines_eq] at h
  obtain ⟨⟨code, i⟩, hmem, rfl⟩ := mem_map.mp (mem_filter.mp h).1
  exact mk_mem_zipIdx_iff_getElem?.mp hmem

/-- **Documents with the same code declare the same symbols**, at the same places. -/
theorem collect_eq_of_sameCode (h : SameCode t t') : collect t' = collect t := by
  have hlines : codeLines t' = codeLines t := by rw [codeLines_eq, codeLines_eq, h]
  have hspans : ∀ entry ∈ codeLines t, SameSpans t t' entry.1 entry.2 := fun entry hentry =>
    h.sameSpans (getElem?_of_mem_codeLines hentry)
  have hsymbols : ∀ types,
      (codeLines t).flatMap (fun (line, code) => Symbol.ofLine t' types line code) =
      (codeLines t).flatMap fun (line, code) => Symbol.ofLine t types line code := by
    intro types
    refine flatMap_congr fun entry hentry => ?_
    exact Symbol.ofLine_eq (hspans entry hentry) types
  have hroutines : (codeLines t).filterMap (fun (line, code) => Routine.ofHeader? t' code line) =
      (codeLines t).filterMap fun (line, code) => Routine.ofHeader? t code line := by
    refine filterMap_congr fun entry hentry => ?_
    exact Routine.ofHeader?_eq (hspans entry hentry)
  rw [collect, collect, hlines, TypeDefinition.keysOf_eq h, TypeDefinition.collect_eq h, hsymbols,
    hroutines]

end SymbolTable
end KrlWorkbench
