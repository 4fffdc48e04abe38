import KrlWorkbench.Proofs.Finding.KindLines
import KrlWorkbench.Proofs.Finding.UsableRanges

/-!
# Declarations in data lists

The check of visibility goes down the lines and knows whether a list is open and whether it is
public.  What it knows at a line depends on the lines above it, and among these the last one that
heads or closes a list decides (`foldl_nextState_of_boundsList`).  A line carries a finding if it
declares something in an open list and says `GLOBAL` where the list is private, or does not where it
is public (`carriesVisibility_iff`).
-/

namespace KrlWorkbench.Finding

open List Code Context LineRule Text

variable {line : SourceLine}

/-! ## The list around a line -/

/-- Whether a line of code heads or closes a data list. -/
def boundsList (code : Text) : Bool :=
  dataListHeader.holds code || closesDataList code

/-- Whether a data list is open behind a line and whether it is public, from what was so in front of
it. -/
def nextState (state : Option Bool) (code : Text) : Option Bool :=
  match dataListHeader.find? code with
  | some found => some (found.has 2)
  | none => if closesDataList code then none else state

/-- The same behind some lines at the top of a document. -/
def listState (lines : List Text) : Option Bool :=
  (lines.map clean).foldl nextState none

section State

variable {code : Text}

lemma boundsList_eq (code : Text) : boundsList code =
    ((dataListHeader.find? code).isSome || closesDataList code) :=
  rfl

lemma nextState_of_not_boundsList (h : boundsList code = false) (state : Option Bool) :
    nextState state code = state := by
  rw [boundsList_eq, Bool.or_eq_false_iff, Option.isSome_eq_false_iff, Option.isNone_iff_eq_none]
    at h
  rw [nextState, h.1, h.2]
  rfl

/-- Behind a line that heads or closes a list it does not matter what was so in front of it. -/
lemma nextState_of_boundsList (h : boundsList code = true) (state state' : Option Bool) :
    nextState state code = nextState state' code := by
  rw [nextState, nextState]
  cases hheader : dataListHeader.find? code with
  | some found => rfl
  | none =>
    have hcloser : closesDataList code = true := by simpa [boundsList_eq, hheader] using h
    simp [hcloser]

lemma foldl_nextState_of_not_boundsList {codes : List Text}
    (h : ∀ code ∈ codes, boundsList code = false) (state : Option Bool) :
    codes.foldl nextState state = state := by
  induction codes with
  | nil => rfl
  | cons code codes ih =>
    rw [foldl_cons, nextState_of_not_boundsList (h code mem_cons_self)]
    exact ih (forall_mem_cons.mp h).2

/-- The last line that heads or closes a list decides. -/
lemma foldl_nextState_of_boundsList {codes : List Text} (hcode : code ∈ codes)
    (h : boundsList code = true) (state state' : Option Bool) :
    codes.foldl nextState state = codes.foldl nextState state' := by
  obtain ⟨above, below, rfl⟩ := append_of_mem hcode
  rw [foldl_append, foldl_append, foldl_cons, foldl_cons, nextState_of_boundsList h]

end State

/-! ## The findings of a line -/

variable {ctx : Context} {f : Finding}

lemma visibilityFrom_cons (state : Option Bool) (line : SourceLine) (rest : List SourceLine) :
    visibilityFrom ctx state (line :: rest) =
      (if boundsList line.code then [] else state.toList.flatMap (visibilityOf ctx · line)) ++
        visibilityFrom ctx (nextState state line.code) rest := by
  rw [visibilityFrom.eq_def, nextState, boundsList_eq]
  dsimp only
  cases dataListHeader.find? line.code with
  | some found => simp
  | none =>
    cases closesDataList line.code with
    | true => simp
    | false => cases state <;> simp

/-- **All lines.**  A finding is one of a line that stands in a list. -/
lemma mem_visibilityFrom_iff {state : Option Bool} {lines : List SourceLine} :
    f ∈ visibilityFrom ctx state lines ↔ ∃ above line below isPublic,
      lines = above ++ line :: below ∧ boundsList line.code = false ∧
      (above.map (·.code)).foldl nextState state = some isPublic ∧
      f ∈ visibilityOf ctx isPublic line := by
  -- On the lines; the state is that of the codes above.
  induction lines generalizing state with
  | nil => simp [visibilityFrom]
  | cons first rest ih =>
    rw [visibilityFrom_cons, mem_append, ih]
    constructor
    · rintro (hf | ⟨above, line, below, isPublic, rfl, hline, hstate, hf⟩)
      · split at hf
        case isTrue => cases hf
        case isFalse hbounds =>
          obtain ⟨isPublic, hstate, hf⟩ := mem_flatMap.mp hf
          exact ⟨[], first, rest, isPublic, rfl, by simpa using hbounds,
            Option.mem_toList.mp hstate, hf⟩
      · exact ⟨first :: above, line, below, isPublic, rfl, hline, hstate, hf⟩
    · rintro ⟨above, line, below, isPublic, heq, hline, hstate, hf⟩
      cases above with
      | nil =>
        obtain ⟨rfl, rfl⟩ := List.cons.inj heq
        rw [map_nil, foldl_nil] at hstate
        refine .inl ?_
        rw [hline, hstate]
        simpa using hf
      | cons _ above =>
        obtain ⟨rfl, rfl⟩ := List.cons.inj heq
        exact .inr ⟨above, line, below, isPublic, rfl, hline, hstate, hf⟩

/-- A line has a finding if it declares something and does not say `GLOBAL` where it should, or says
it where it should not. -/
lemma exists_mem_visibilityOf_iff {isPublic : Bool} :
    (∃ f, f ∈ visibilityOf ctx isPublic line) ↔ declKeyword.holds line.code = true ∧
      isPublic = !globalKeyword.holds line.code := by
  have hglobal : globalKeyword.holds line.code =
      (globalKeyword.find? line.code).isSome := rfl
  rw [visibilityOf, hglobal]
  cases declKeyword.holds line.code <;> cases isPublic <;>
    cases globalKeyword.find? line.code <;> simp

/-! ## Lines with a finding -/

variable {text : Text} {view : WorkspaceView}

lemma line_eq_of_marks (hline : line ∈ (ofText text view).lines)
    (h : line.Marks (ofText text view) f) : f.range.start.line = line.number := by
  obtain ⟨column, length, hle, hrange⟩ := h
  obtain ⟨hraw, hcode⟩ := getElem?_of_mem_lines hline
  rw [hcode, byteLength_clean] at hle
  have hpart := byteLength_le_of_isPrefix (codePart_isPrefix line.raw)
  rw [hrange]
  exact congrArg (·.start.line) (span_eq hraw (hle.trans hpart))

lemma listState_take {above below : List SourceLine}
    (h : (ofText text view).lines = above ++ line :: below) :
    (above.map (·.code)).foldl nextState none = listState (text.lines.take line.number) := by
  have hcodes : (ofText text view).lines.map (·.code) = text.lines.map clean := by
    rw [← zipIdx_map_fst 0 text.lines, map_map]
    exact map_map
  rw [listState, number_eq_length h, map_take, ← hcodes, h, map_append]
  rw [← length_map (·.code), take_left]

lemma mem_visibility_iff : f ∈ visibility (ofText text view) ↔
    ∃ line ∈ (ofText text view).lines, ∃ isPublic, boundsList line.code = false ∧
      listState (text.lines.take line.number) = some isPublic ∧
      f ∈ visibilityOf (ofText text view) isPublic line := by
  rw [visibility, mem_visibilityFrom_iff]
  constructor
  · rintro ⟨above, line, below, isPublic, hlines, hbounds, hstate, hf⟩
    exact ⟨line, by simp [hlines], isPublic, hbounds, listState_take hlines ▸ hstate, hf⟩
  · rintro ⟨line, hline, isPublic, hbounds, hstate, hf⟩
    obtain ⟨above, below, hlines⟩ := append_of_mem hline
    exact ⟨above, line, below, isPublic, hlines, hbounds, (listState_take hlines).trans hstate, hf⟩

lemma marks_of_mem_visibilityOf {ctx : Context} {isPublic : Bool}
    (hf : f ∈ visibilityOf ctx isPublic line) : line.Marks ctx f := by
  have hreports := reports_visibilityOf ctx.agrees_refl (mem_singleton_self line)
    (line.agrees_refl ctx) isPublic
  obtain ⟨line', hline', hmarks⟩ := hreports.marks f hf
  rwa [mem_singleton.mp hline'] at hmarks

/-- A finding about visibility points at the line. -/
def CarriesVisibility (text : Text) (view : WorkspaceView) (n : Nat) : Prop :=
  ∃ f ∈ visibility (ofText text view), f.range.start.line = n

/-- **Which lines carry a finding.**  Those that declare something in a list, but say `GLOBAL` in a
private one or do not say it in a public one. -/
lemma carriesVisibility_iff {raw : Text} {n : Nat} (hraw : text.lines[n]? = some raw) :
    CarriesVisibility text view n ↔ boundsList (clean raw) = false ∧
      declKeyword.holds (clean raw) = true ∧
      listState (text.lines.take n) = some !globalKeyword.holds (clean raw) := by
  constructor
  · rintro ⟨f, hf, rfl⟩
    obtain ⟨line, hline, isPublic, hbounds, hstate, hf⟩ := mem_visibility_iff.mp hf
    obtain ⟨hraw', hcode⟩ := getElem?_of_mem_lines hline
    have hnumber := line_eq_of_marks hline (marks_of_mem_visibilityOf hf)
    rw [hnumber] at hraw ⊢
    obtain rfl := Option.some.inj (hraw.symm.trans hraw')
    obtain ⟨hdecl, rfl⟩ := exists_mem_visibilityOf_iff.mp ⟨f, hf⟩
    rw [← hcode]
    exact ⟨hbounds, hdecl, hstate⟩
  · rintro ⟨hbounds, hdecl, hstate⟩
    let line : SourceLine :=
      ⟨n, raw, clean raw, LineKind.ofLine (ofText text view).types raw⟩
    have hline : line ∈ (ofText text view).lines :=
      mem_map.mpr ⟨(raw, n), mem_zipIdx_iff_getElem?.mpr hraw, rfl⟩
    obtain ⟨f, hf⟩ : ∃ f, f ∈ visibilityOf (ofText text view) _ line :=
      exists_mem_visibilityOf_iff.mpr ⟨hdecl, rfl⟩
    exact ⟨f, mem_visibility_iff.mpr ⟨line, hline, _, hbounds, hstate, hf⟩,
      line_eq_of_marks hline (marks_of_mem_visibilityOf hf)⟩

end KrlWorkbench.Finding
