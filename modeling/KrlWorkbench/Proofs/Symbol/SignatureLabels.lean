import KrlWorkbench.Proofs.Pattern.Preferred
import KrlWorkbench.Proofs.Renaming.Declarations

/-!
# Signature labels as headers

A routine is shown by its label: the header in a uniform layout, with the parameters as they were
written and a comma and a space between them.  The label is a header again, of the same name, return
type and parameters (`Routine.same_signature_of_label`).

Two things may go wrong in between.  The rules for headers must find in the label the parts it was
printed from: those of a header that is read have the form for it (`Routine.readable_of_ofHeader?`),
and parts of that form are found again (`Routine.exists_ofHeader?_label`).  And the list of
parameters must fall into the same pieces, although pieces that name nothing were left out and the
last one may leave a bracket or a string open (`Param.ofList_join`).
-/

namespace KrlWorkbench

open List LineRule Text

variable {a code list name : Text} {c : Char} {p : Param} {r : Routine}

/-- What a match holds under the number of a group that is always there. -/
lemma LineRule.exists_fits_text {rule : LineRule} {m : Match} {i : Nat}
    {body : Pattern} (hbodies : rule.pattern.bodies i = [body])
    (hbinds : rule.pattern.binds i = true) (hm : rule.find? code = some m) :
    ∃ here v found, Pattern.Fits body here (m.text i) v found := by
  obtain ⟨_, _, _, -, -, hfits⟩ := Pattern.matches_of_find? hm
  obtain ⟨c, hc⟩ := Option.isSome_iff_exists.mp (hfits.isSome_lookup hbinds)
  obtain ⟨_, hbody, hfits⟩ := hfits.exists_body (Match.mem_groups_of_group? hc)
  rw [hbodies, mem_singleton] at hbody
  subst hbody
  have htext : m.text i = c.text := by rw [Match.text, Match.group?, hc]; rfl
  rw [htext]
  exact hfits

/-! ## Parameters as written -/

namespace Param

lemma ofText?_congr {b : Text} (h : trim a = trim b) : ofText? a = ofText? b := by
  rw [ofText?, ofText?, h]

lemma raw_of_ofText? (h : ofText? a = some p) : p.raw = trim a := by
  obtain ⟨-, h⟩ := Option.ite_none_right_eq_some.mp h
  rw [← Option.some.inj h]

lemma ofList_eq_filterMap (list : Text) :
    ofList list = (ListItem.pieces 0 false list).filterMap ofText? := by
  rw [ofList, ← ListItem.map_text_split, filterMap_map]
  rfl

lemma raw_subset (h : p ∈ ofList list) : p.raw ⊆ list := by
  obtain ⟨item, hitem, hp⟩ := mem_filterMap.mp h
  obtain ⟨a, b, hlist, -⟩ := ListItem.inside_of_mem_split hitem
  rw [raw_of_ofText? hp, hlist]
  exact List.Subset.trans (trim_subset item.text) fun c hc =>
    mem_append_right _ (mem_append_left _ hc)

/-- The pieces of a list that are parameters. -/
def piecesOf (list : Text) : List Text :=
  (ListItem.pieces 0 false list).filter fun a => (ofText? a).isSome

lemma filterMap_piecesOf (list : Text) : (piecesOf list).filterMap ofText? = ofList list := by
  rw [ofList_eq_filterMap, piecesOf, filterMap_filter]
  refine filterMap_congr fun a _ => ?_
  cases ofText? a <;> rfl

lemma map_raw_ofList (list : Text) : (ofList list).map (·.raw) = (piecesOf list).map trim := by
  rw [ofList_eq_filterMap, piecesOf]
  induction ListItem.pieces 0 false list with
  | nil => rfl
  | cons a pieces ih =>
    cases ha : ofText? a with
    | none => rw [filterMap_cons_none ha, filter_cons_of_neg (by simp [ha]), ih]
    | some p =>
      rw [filterMap_cons_some ha, filter_cons_of_pos (by simp [ha]), map_cons,
        map_cons, ih, raw_of_ofText? ha]

/-- **The parameters of a list, joined as written, are the parameters of their list.** -/
lemma ofList_join (list : Text) :
    ofList ((", ".toList).intercalate ((ofList list).map (·.raw))) = ofList list := by
  rw [map_raw_ofList, ← filterMap_piecesOf list]
  have hsub : (piecesOf list).Sublist (ListItem.pieces 0 false list) := filter_sublist
  cases hpieces : piecesOf list with
  | nil => rfl
  | cons a rest =>
    have hitems : ListItem.Items ((a :: rest).map trim) := by
      rw [hpieces] at hsub
      exact ((ListItem.items_pieces list).sublist hsub (by simp)).map
        fun p => ListItem.stateAfter_trim p
    have hspace : ∀ b, ofText? (' ' :: trim b) = ofText? b := fun b =>
      ofText?_congr ((trim_append_of_blank isBlanks_space (trim b)).trans (trim_trim b))
    rw [ofList_eq_filterMap, map_cons, ListItem.pieces_intercalate_spaced hitems, map_map,
      filterMap_cons, filterMap_cons, ofText?_congr (trim_trim a), filterMap_map]
    have hrest : rest.filterMap (ofText? ∘ (' ' :: ·) ∘ trim) = rest.filterMap ofText? :=
      filterMap_congr fun b _ => hspace b
    rw [hrest]

end Param

/-! ## The parts of a header -/

namespace Routine

/-- A character with which a return type may begin. -/
def isTypeStart (c : Char) : Bool :=
  anyCaseInitial c || c == '$'

/-- A character of a return type behind the first one. -/
def isTypePart (c : Char) : Bool :=
  isNamePart c || c == '[' || c == ']'

lemma isBlank_of_anyCaseInitial (hc : anyCaseInitial c = true) : isBlank c = false :=
  isBlank_of_isWordChar (isWordChar_of_anyCaseInitial hc)

lemma isBlank_of_isTypeStart (hc : isTypeStart c = true) : isBlank c = false := by
  rcases Bool.or_eq_true_iff.mp hc with hc | hc
  · exact isBlank_of_anyCaseInitial hc
  · rw [beq_iff_eq.mp hc]
    decide

/-- The parts of a routine have the form in which the rules for headers read them. -/
structure Readable (r : Routine) : Prop where
  returnType : ∀ type ∈ r.returnType, IsRun isTypeStart isTypePart type
  name : IsRun anyCaseInitial isWordChar r.name
  paramList : ')' ∉ r.paramList
  params : Param.ofList r.paramList = r.params

lemma readable_ofParts {returnType : Option Text} {place : Capture}
    (htype : ∀ type ∈ returnType, IsRun isTypeStart isTypePart type)
    (hname : IsRun anyCaseInitial isWordChar place.text) (hlist : ')' ∉ list)
    (text : Text) (line : Nat) (isGlobal : Bool) :
    (ofParts text line isGlobal returnType place list).Readable := by
  refine ⟨htype, hname, fun hmem => ?_, Param.ofList_join list⟩
  rcases ListItem.mem_of_mem_intercalate hmem with hsep | ⟨raw, hraw, hmem⟩
  · exact absurd hsep (by decide)
  · obtain ⟨p, hp, rfl⟩ := mem_map.mp hraw
    exact hlist (Param.raw_subset hp hmem)

lemma readable_of_ofHeader? {text : Text} {line : Nat}
    (h : ofHeader? text code line = some r) : r.Readable := by
  have hclosed : ∀ {here : Cursor} {list v : Text} {found : Groups},
      Pattern.Fits (.many (· != ')')) here list v found → ')' ∉ list :=
    fun hfits hmem => absurd (hfits.forall_of_many.1 _ hmem) (by decide)
  rw [ofHeader?] at h
  split at h
  case h_1 found hfound =>
    obtain ⟨place, hplace, rfl⟩ := Option.map_eq_some_iff.mp h
    obtain ⟨_, _, _, htype⟩ := exists_fits_text (i := 2) rfl rfl hfound
    obtain ⟨_, _, _, hname⟩ := exists_fits_text (i := 3) rfl rfl hfound
    obtain ⟨_, _, _, hlist⟩ := exists_fits_text (i := 4) rfl rfl hfound
    rw [Match.text, hplace] at hname
    refine readable_ofParts ?_ hname.isRun (hclosed hlist) ..
    rintro _ ⟨⟩
    exact htype.isRun
  case h_2 =>
    obtain ⟨found, hfound, h⟩ := Option.bind_eq_some_iff.mp h
    obtain ⟨place, hplace, h⟩ := Option.bind_eq_some_iff.mp h
    obtain rfl := Option.some.inj h
    obtain ⟨_, _, _, hname⟩ := exists_fits_text (i := 2) rfl rfl hfound
    obtain ⟨_, _, _, hlist⟩ := exists_fits_text (i := 3) rfl rfl hfound
    rw [Match.text, hplace] at hname
    exact readable_ofParts (by simp) hname.isRun (hclosed hlist) ..

/-! ## Labels -/

open LineRule Pattern

/-- What stands before the keyword of a label. -/
def lead (isGlobal : Bool) : Text :=
  if isGlobal then "GLOBAL ".toList else []

lemma prefers_lead (isGlobal : Bool) {v : Text} (hsolid : v.head?.any isBlank = false)
    (hv : sameWord "GLOBAL".toList (v.takeWhile isWordChar) = false) :
    Prefers (indent ++ maybe 1 "GLOBAL") [] (lead isGlobal) v
      (if isGlobal then [(1, ⟨0, "GLOBAL".toList⟩)] else []) := by
  cases isGlobal with
  | true =>
    exact (Prefers.indent isBlanks_nil rfl).seq
      (.maybe_present 1 (sameWord_refl _) isBlanks_space (by simp) hsolid [])
  | false =>
    exact (Prefers.indent isBlanks_nil hsolid).seq_absent (.maybe_absent 1 rfl hv [])

lemma prefers_parameters (i : Nat) (hlist : ')' ∉ list) (x v : Text) :
    Prefers (parameters i) x ('(' :: (list ++ [')'])) v [(i, ⟨byteLength (x ++ ['(']), list⟩)] := by
  have hopen : ∀ c ∈ list, (c != ')') = true := fun c hc => by
    rw [bne_iff_ne]
    rintro rfl
    exact hlist hc
  exact (((Prefers.blanks isBlanks_nil rfl x).seq (.one (c := '(') rfl _ _)).seq
    (.group i (.many hopen rfl _))).seq (.one (c := ')') rfl _ v)

lemma exists_ofHeader?_function {type : Text} (htype : IsRun isTypeStart isTypePart type)
    (hname : IsRun anyCaseInitial isWordChar name) (hlist : ')' ∉ list) (isGlobal : Bool)
    (text : Text) (line : Nat) :
    ∃ place, place.text = name ∧
      ofHeader? text (lead isGlobal ++ ("DEFFCT ".toList ++ type ++ [' ']) ++ name ++ ['('] ++
        list ++ [')']) line = some (ofParts text line isGlobal (some type) place list) := by
  have hshape := ((((((prefers_lead isGlobal (by rfl) (by rfl)).seq
    (.word (sameWord_refl "DEFFCT".toList) _ _)).seq
    (.gap isBlanks_space (by simp) (htype.head?_any (fun _ => isBlank_of_isTypeStart) _) _)).seq
    (.group 2 (.run htype (by rfl) _))).seq
    (.gap isBlanks_space (by simp) (hname.head?_any (fun _ => isBlank_of_anyCaseInitial) _) _)).seq
    (.group 3 (.run hname (by rfl) _))).seq (prefers_parameters 4 hlist _ [])
  have hfind := find?_of_prefers hshape
  have hkeyword : "DEFFCT ".toList = "DEFFCT".toList ++ [' '] := rfl
  change functionHeader.find? _ = _ at hfind
  simp only [append_assoc, cons_append, nil_append] at hfind
  refine ⟨⟨byteLength (lead isGlobal ++ ("DEFFCT".toList ++ ' ' :: (type ++ [' ']))), name⟩, rfl,
    ?_⟩
  simp only [hkeyword, append_assoc, cons_append, nil_append]
  rw [ofHeader?, hfind]
  cases isGlobal <;> rfl

lemma find?_functionHeader (isGlobal : Bool) (rest : Text) :
    functionHeader.find? (lead isGlobal ++ ("DEF".toList ++ ' ' :: rest)) = none := by
  rw [LineRule.find?, find?_of_startsText rfl]
  cases isGlobal <;> rfl

lemma exists_ofHeader?_routine (hname : IsRun anyCaseInitial isWordChar name)
    (hlist : ')' ∉ list) (isGlobal : Bool) (text : Text) (line : Nat) :
    ∃ place, place.text = name ∧
      ofHeader? text (lead isGlobal ++ "DEF ".toList ++ name ++ ['('] ++ list ++ [')']) line =
        some (ofParts text line isGlobal none place list) := by
  have hshape := ((((prefers_lead isGlobal (by rfl) (by rfl)).seq
    (.word (sameWord_refl "DEF".toList) _ _)).seq
    (.gap isBlanks_space (by simp) (hname.head?_any (fun _ => isBlank_of_anyCaseInitial) _) _)).seq
    (.group 2 (.run hname (by rfl) _))).seq (prefers_parameters 3 hlist _ [])
  have hfind := find?_of_prefers hshape
  have hkeyword : "DEF ".toList = "DEF".toList ++ [' '] := rfl
  change routineHeader.find? _ = _ at hfind
  simp only [append_assoc, cons_append, nil_append] at hfind
  refine ⟨⟨byteLength (lead isGlobal ++ ("DEF".toList ++ [' '])), name⟩, rfl, ?_⟩
  simp only [hkeyword, append_assoc, cons_append, nil_append]
  rw [ofHeader?, find?_functionHeader, hfind]
  cases isGlobal <;> rfl

/-- **A label is read as the parts it is printed from.** -/
lemma exists_ofHeader?_label (h : r.Readable) (text : Text) (line : Nat) :
    ∃ place, place.text = r.name ∧ ofHeader? text r.label line =
      some (ofParts text line r.symbol.isGlobal r.returnType place r.paramList) := by
  rw [label]
  cases htype : r.returnType with
  | some type =>
    exact exists_ofHeader?_function (h.returnType type htype) h.name h.paramList ..
  | none => exact exists_ofHeader?_routine h.name h.paramList ..

/-- **Labels are headers of the same signature.**  The label of a routine that was read from a
header is read as a routine of the same name, scope, return type and parameters. -/
theorem same_signature_of_label {text code : Text} {line : Nat} {r : Routine}
    (h : ofHeader? text code line = some r) (text' : Text) (line' : Nat) :
    ∃ r', ofHeader? text' r.label line' = some r' ∧ r'.name = r.name ∧
      r'.symbol.isGlobal = r.symbol.isGlobal ∧ r'.returnType = r.returnType ∧
      r'.params = r.params := by
  have hreadable := readable_of_ofHeader? h
  obtain ⟨place, hname, hlabel⟩ := exists_ofHeader?_label hreadable text' line'
  exact ⟨_, hlabel, hname, rfl, rfl, hreadable.params⟩

/-- A header with parameters that name nothing, and a last one that leaves a bracket open. -/
theorem same_signature_of_open_label :
    ∃ r r', ofHeader? [] "global deffct  INT f( a:IN,, 2, b[ , c:out)".toList 0 = some r ∧
      ofHeader? [] r.label 0 = some r' ∧ r'.name = r.name ∧
      r'.symbol.isGlobal = r.symbol.isGlobal ∧ r'.returnType = r.returnType ∧
      r'.params = r.params ∧ r'.params.map (·.raw) = ["a:IN".toList, "b[ , c:out".toList] := by
  have hread : ofHeader? [] "global deffct  INT f( a:IN,, 2, b[ , c:out)".toList 0 =
      some ⟨⟨['f'], .function, some "INT".toList, some ⟨⟨0, 0⟩, ⟨0, 0⟩⟩, true, none⟩,
        [⟨['a'], some .input, "a:IN".toList⟩, ⟨['b'], some .output, "b[ , c:out".toList⟩],
        some "INT".toList, 0⟩ := by decide
  obtain ⟨r', hlabel, hname, hglobal, htype, hparams⟩ := same_signature_of_label hread [] 0
  exact ⟨_, r', hread, hlabel, hname, hglobal, htype, hparams, by rw [hparams]; rfl⟩

end Routine
end KrlWorkbench
