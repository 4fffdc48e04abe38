import KrlWorkbench.Proofs.CaseIndependence.Patterns
import KrlWorkbench.Proofs.Code.Clean
import KrlWorkbench.Proofs.Symbol.DeclaredKeys

/-!
# Declarations ignore case

The declarations of a text in upper case are the declarations of the text, written in upper case:
the names, types and values change with the text, and kinds, places, scopes and directions stay as
they are.  Each reader, from the items of a list up to the table of a document, has one lemma that
says so, and the main statement is `SymbolTable.collect_upper`.
-/

namespace KrlWorkbench

open List LineRule Text

/-! ## Lists of items -/

namespace ListItem

/-- The same item, written in upper case. -/
def inUpper (item : ListItem) : ListItem :=
  ⟨item.offset, upper item.text⟩

lemma isOpening_upperChar (c : Char) : isOpening (upperChar c) = isOpening c :=
  apply_upperChar isOpening (by decide) c

lemma isClosing_upperChar (c : Char) : isClosing (upperChar c) = isClosing c :=
  apply_upperChar isClosing (by decide) c

lemma consPiece_upper (c : Char) (ps : List Text) :
    consPiece (upperChar c) (ps.map upper) = (consPiece c ps).map upper := by
  cases ps <;> rfl

lemma pieces_upper (depth : Nat) (inside : Bool) (list : Text) :
    pieces depth inside (upper list) = (pieces depth inside list).map upper := by
  induction list generalizing depth inside with
  | nil => rfl
  | cons c rest ih =>
    have hquote : (upperChar c == '"') = (c == '"') := beq_upperChar (by decide) c
    have hcomma : (upperChar c == ',') = (c == ',') := beq_upperChar (by decide) c
    rw [upper_cons, pieces, pieces, hquote, hcomma, isOpening_upperChar, isClosing_upperChar]
    simp only [ih, consPiece_upper, apply_ite (List.map upper), map_cons, upper_nil]

lemma withOffsets_upper (offset : Nat) (ps : List Text) :
    withOffsets offset (ps.map upper) = (withOffsets offset ps).map inUpper := by
  induction ps generalizing offset with
  | nil => rfl
  | cons piece rest ih =>
    rw [map_cons, withOffsets, withOffsets, byteLength_upper, ih]
    rfl

lemma split_upper (list : Text) : split (upper list) = (split list).map inUpper := by
  rw [split, pieces_upper, withOffsets_upper, split]

lemma splitInitialFrom_upper (depth : Int) (inside : Bool) (item : Text) :
    splitInitialFrom depth inside (upper item) =
      (upper (splitInitialFrom depth inside item).1,
        (splitInitialFrom depth inside item).2.map upper) := by
  induction item generalizing depth inside with
  | nil => rfl
  | cons c rest ih =>
    have hquote : (upperChar c == '"') = (c == '"') := beq_upperChar (by decide) c
    have hequals : (upperChar c == '=') = (c == '=') := beq_upperChar (by decide) c
    rw [upper_cons, splitInitialFrom, splitInitialFrom, hquote, hequals, isOpening_upperChar,
      isClosing_upperChar]
    split
    · rw [trim_upper]
      rfl
    · simp only [ih]
      rfl

lemma stripIndex_upper (name : Text) : stripIndex (upper name) = upper (stripIndex name) := by
  rw [stripIndex, stripIndex, contains_upper (by decide),
    takeWhile_upper (p := (· != '[')) (bne_upperChar (by decide)), trimEnd_upper]
  split <;> rfl

lemma name_inUpper (item : ListItem) : item.inUpper.name = upper item.name := by
  rw [name, name, inUpper, splitInitial, splitInitialFrom_upper, trim_upper, stripIndex_upper]
  rfl

lemma value_inUpper (item : ListItem) : item.inUpper.value = item.value.map upper := by
  rw [value, value, inUpper, splitInitial, splitInitialFrom_upper, Option.filter_map]
  simp only [Function.comp_def, isEmpty_upper]
  rfl

lemma nameOffset_inUpper (item : ListItem) : item.inUpper.nameOffset = item.nameOffset := by
  rw [nameOffset, nameOffset, inUpper, indentBytes_upper]

end ListItem

/-! ## Kinds of line -/

lemma BuiltinType.isBuiltinType_upper (word : Text) :
    isBuiltinType (upper word) = isBuiltinType word := by
  rw [isBuiltinType, upper_upper, isBuiltinType]

namespace TypedList

/-- The same list, written in upper case. -/
def inUpper (parts : TypedList) : TypedList :=
  { parts with typeName := upper parts.typeName, list := upper parts.list }

lemma ofCode?_upper (types : List Text) (code : Text) :
    ofCode? types (upper code) = (ofCode? types code).map inUpper := by
  rw [ofCode?, ofCode?, find?_upper]
  cases declaration.find? code with
  | none => rfl
  | some found =>
    simp only [Option.map_some, Option.bind_eq_bind, Option.bind_some, Match.group?_inUpper]
    cases found.group? 7 with
    | none => rfl
    | some list =>
      simp only [Option.map_some, Option.bind_some, Match.text_inUpper, Match.has_inUpper,
        upper_upper, BuiltinType.isBuiltinType_upper, Capture.inUpper, trimStart_upper,
        head?_upper_beq (d := '=') (by decide), apply_ite (Option.map inUpper), Option.map_none]
      rfl

end TypedList

namespace LineKind

lemma ofCode_upper (types : List Text) (code : Text) :
    ofCode types (upper code) = ofCode types code := by
  simp only [ofCode, holds_upper, find?_upper, TypedList.ofCode?_upper, Option.isSome_map]
  cases typeDefinition.find? code with
  | none => rfl
  | some found => simp only [Option.map_some, Match.text_inUpper, sameName_upper_left]

lemma ofLine_upper (types : List Text) (line : Text) :
    ofLine types (upper line) = ofLine types line := by
  simp only [ofLine, trim_upper, isEmpty_upper, head?_upper_beq (d := ';') (by decide),
    head?_upper_beq (d := '&') (by decide), Code.codePart_upper, allBlank_upper, ofCode_upper]

end LineKind

/-! ## Routines -/

/-- The same symbol, written in upper case. -/
def Symbol.inUpper (s : Symbol) : Symbol :=
  { s with name := upper s.name, typeName := s.typeName.map upper, value := s.value.map upper }

/-- The same parameter, written in upper case. -/
def Param.inUpper (p : Param) : Param :=
  { p with name := upper p.name, raw := upper p.raw }

/-- The same routine, written in upper case. -/
def Routine.inUpper (r : Routine) : Routine :=
  { r with
    symbol := r.symbol.inUpper
    params := r.params.map Param.inUpper
    returnType := r.returnType.map upper }

lemma Symbol.key_inUpper (s : Symbol) : s.inUpper.key = s.key := by
  rw [key, key, inUpper, upper_upper]

lemma Routine.key_inUpper (r : Routine) : r.inUpper.key = r.key :=
  r.symbol.key_inUpper

lemma Direction.ofText?_upper (word : Text) : ofText? (upper word) = ofText? word := by
  rw [ofText?, ofText?, trim_upper, upper_upper]

lemma splitLastColon_upper (raw : Text) :
    splitLastColon (upper raw) =
      (splitLastColon raw).map fun parts => (upper parts.1, upper parts.2) := by
  have hcolon : ∀ c, (upperChar c != ':') = (c != ':') := bne_upperChar (by decide)
  rw [splitLastColon, splitLastColon, ← upper_reverse, dropWhile_upper hcolon,
    takeWhile_upper hcolon]
  cases raw.reverse.dropWhile (· != ':') with
  | nil => rfl
  | cons c name => simp only [upper_cons, ← upper_reverse, Option.map_some]

lemma Param.ofText?_upper (text : Text) : ofText? (upper text) = (ofText? text).map inUpper := by
  rw [ofText?, ofText?, trim_upper, splitLastColon_upper]
  cases splitLastColon (trim text) with
  | none =>
    simp only [Option.map_none, trim_upper, ListItem.stripIndex_upper, isIdentifier_upper]
    split <;> rfl
  | some parts =>
    simp only [Option.map_some, trim_upper, ListItem.stripIndex_upper, isIdentifier_upper,
      Direction.ofText?_upper]
    split <;> rfl

lemma Param.ofList_upper (list : Text) : ofList (upper list) = (ofList list).map inUpper := by
  rw [ofList, ofList, ListItem.split_upper, filterMap_map, map_filterMap]
  exact filterMap_congr fun item _ => ofText?_upper item.text

namespace Routine

lemma ofParts_upper (text : Text) (line : Nat) (isGlobal : Bool) (returnType : Option Text)
    (name : Capture) (params : Text) :
    ofParts (upper text) line isGlobal (returnType.map upper) name.inUpper (upper params) =
      (ofParts text line isGlobal returnType name params).inUpper := by
  simp only [ofParts, inUpper, Symbol.inUpper, Capture.inUpper, span_upper, byteLength_upper,
    Param.ofList_upper, Option.map_none]

lemma ofHeader?_upper (text code : Text) (line : Nat) :
    ofHeader? (upper text) (upper code) line = (ofHeader? text code line).map inUpper := by
  rw [ofHeader?, ofHeader?, find?_upper, find?_upper]
  cases functionHeader.find? code with
  | some found =>
    simp only [Option.map_some, Match.group?_inUpper, Match.has_inUpper, Match.text_inUpper,
      Option.map_map]
    congr 1
    funext name
    exact ofParts_upper text line _ (some (found.text 2)) name _
  | none =>
    cases routineHeader.find? code with
    | none => rfl
    | some found =>
      simp only [Option.map_none, Option.map_some, Option.bind_eq_bind, Option.bind_some,
        Match.group?_inUpper, Match.has_inUpper, Match.text_inUpper]
      cases found.group? 2 with
      | none => rfl
      | some name => exact congrArg some (ofParts_upper text line _ none name _)

end Routine

/-! ## Types -/

namespace TypeDefinition

/-- The same definition, written in upper case. -/
def inUpper (d : TypeDefinition) : TypeDefinition :=
  { d with name := upper d.name, members := d.members.map upper }

lemma key_inUpper (d : TypeDefinition) : d.inUpper.key = d.key := by
  rw [key, key, inUpper, upper_upper]

lemma isEnumeration_inUpper (found : Match) :
    isEnumeration found.inUpper = isEnumeration found := by
  rw [isEnumeration, isEnumeration, Match.text_inUpper, sameName_upper_left]

lemma keysOf_upper (lines : List Text) : keysOf (lines.map upper) = keysOf lines := by
  rw [keysOf, keysOf, filterMap_map]
  refine filterMap_congr fun line _ => ?_
  rw [Function.comp_apply, Code.codePart_upper, find?_upper, Option.map_map]
  simp only [Function.comp_def, Match.text_inUpper, upper_upper]

lemma membersOf_upper (known : List Text) (isEnum : Bool) (list : Text) :
    membersOf known isEnum (upper list) = (membersOf known isEnum list).map upper := by
  rw [membersOf, membersOf, ListItem.split_upper, flatMap_map, map_flatMap]
  refine flatMap_congr fun item _ => ?_
  rw [ListItem.inUpper, blankSeparated_upper, filterMap_map, map_filterMap]
  refine filterMap_congr fun word _ => ?_
  simp only [Function.comp_apply, ListItem.stripIndex_upper, isIdentifier_upper,
    BuiltinType.isBuiltinType_upper, upper_upper, apply_ite (Option.map upper), Option.map_none,
    Option.map_some]

lemma ofLine?_upper (known : List Text) (line : Text) :
    ofLine? known (upper line) = (ofLine? known line).map inUpper := by
  rw [ofLine?, ofLine?, Code.codePart_upper, find?_upper, Option.map_map, Option.map_map]
  simp only [Function.comp_def, isEnumeration_inUpper, Match.text_inUpper, membersOf_upper, inUpper]

lemma collect_upper (text : Text) (known : List Text) :
    collect (upper text) known = (collect text known).map inUpper := by
  rw [collect, collect, lines_upper, keysOf_upper, filterMap_map]
  have hlines :
      (text.lines.filterMap fun line => ofLine? (known ++ keysOf text.lines) (upper line)) =
      (text.lines.filterMap (ofLine? (known ++ keysOf text.lines))).map inUpper := by
    rw [map_filterMap]
    exact filterMap_congr fun line _ => ofLine?_upper _ line
  rw [Function.comp_def, hlines]
  exact @foldl_keepFirst_map _ key inUpper key_inUpper _

end TypeDefinition

/-! ## Variables -/

namespace Symbol

lemma ofParams_inUpper (r : Routine) : ofParams r.inUpper = (ofParams r).map inUpper := by
  rw [ofParams, ofParams, Routine.inUpper, map_map, map_map]
  rfl

lemma ofTypeDefinition_upper (text : Text) (line : Nat) (found : Match) :
    ofTypeDefinition (upper text) line found.inUpper =
      (ofTypeDefinition text line found).map inUpper := by
  rw [ofTypeDefinition, ofTypeDefinition, Match.group?_inUpper]
  cases found.group? 4 with
  | none => rfl
  | some name =>
    simp only [Option.map_some, Match.has_inUpper, Match.text_inUpper,
      TypeDefinition.isEnumeration_inUpper, ListItem.split_upper, map_map, Capture.inUpper,
      span_upper, byteLength_upper, trim_upper]
    split
    · rw [filterMap_map, filterMap_map, map_filterMap]
      refine filterMap_congr fun item _ => ?_
      simp only [Function.comp_apply, ListItem.inUpper, trim_upper, isIdentifier_upper]
      split <;> rfl
    · rfl

lemma ofSignal_upper (text : Text) (line : Nat) (found : Match) :
    ofSignal (upper text) line found.inUpper = (ofSignal text line found).map inUpper := by
  rw [ofSignal, ofSignal, Match.group?_inUpper]
  cases found.group? 2 with
  | none => rfl
  | some name =>
    simp only [Option.map_some, Match.has_inUpper, Match.text_inUpper, Capture.inUpper,
      isIdentifier_upper, span_upper, byteLength_upper, trim_upper]
    split
    · simp only [map_singleton, inUpper, Option.filter_some, isEmpty_upper,
        apply_ite (Option.map upper), Option.map_some, Option.map_none]
    · rfl

lemma ofTypedList_upper (text : Text) (line : Nat) (parts : TypedList) :
    ofTypedList (upper text) line parts.inUpper = (ofTypedList text line parts).map inUpper := by
  rw [ofTypedList, ofTypedList, TypedList.inUpper, ListItem.split_upper, filterMap_map,
    map_filterMap]
  refine filterMap_congr fun item _ => ?_
  simp only [Function.comp_apply, ListItem.name_inUpper, ListItem.nameOffset_inUpper,
    ListItem.value_inUpper, isIdentifier_upper, span_upper, byteLength_upper]
  split <;> rfl

lemma ofLine_upper (text : Text) (types : List Text) (line : Nat) (code : Text) :
    ofLine (upper text) types line (upper code) = (ofLine text types line code).map inUpper := by
  rw [ofLine, ofLine, Routine.ofHeader?_upper, find?_upper, find?_upper, TypedList.ofCode?_upper]
  cases Routine.ofHeader? text code line with
  | some r => exact ofParams_inUpper r
  | none =>
    cases typeDefinition.find? code with
    | some found => exact ofTypeDefinition_upper text line found
    | none =>
      cases signal.find? code with
      | some found => exact ofSignal_upper text line found
      | none =>
        cases TypedList.ofCode? types code with
        | some parts => exact ofTypedList_upper text line parts
        | none => rfl

lemma refine_inUpper (old new : Symbol) :
    refine old.inUpper new.inUpper = (refine old new).inUpper := by
  rw [refine, refine, inUpper, Option.isNone_map]
  split <;> rfl

lemma add_inUpper (new : Symbol) (found : List Symbol) :
    add new.inUpper (found.map inUpper) = (add new found).map inUpper := by
  induction found with
  | nil => rfl
  | cons old rest ih =>
    rw [map_cons, add, add, key_inUpper, key_inUpper, refine_inUpper, ih]
    split <;> rfl

end Symbol

/-! ## The table of a document -/

namespace SymbolTable

/-- The same table, written in upper case. -/
def inUpper (table : SymbolTable) : SymbolTable where
  symbols := table.symbols.map Symbol.inUpper
  routines := table.routines.map Routine.inUpper
  types := table.types.map TypeDefinition.inUpper

lemma codeLines_upper (text : Text) :
    codeLines (upper text) = (codeLines text).map fun entry => (entry.1, upper entry.2) := by
  rw [codeLines, codeLines, lines_upper, zipIdx_map, map_map, filter_map, filter_map, map_map]
  simp only [Function.comp_def, Prod.map, Code.codePart_upper, allBlank_upper, id]

/-- The declarations of a text in upper case are its declarations in upper case. -/
lemma collect_upper (text : Text) : collect (upper text) = (collect text).inUpper := by
  have hsymbols (types : List Text) :
      ((codeLines (upper text)).flatMap fun entry =>
        Symbol.ofLine (upper text) types entry.1 entry.2) =
      ((codeLines text).flatMap fun entry =>
        Symbol.ofLine text types entry.1 entry.2).map Symbol.inUpper := by
    rw [codeLines_upper, flatMap_map, map_flatMap]
    exact flatMap_congr fun entry _ => Symbol.ofLine_upper text types entry.1 entry.2
  have hroutines :
      ((codeLines (upper text)).filterMap fun entry =>
        Routine.ofHeader? (upper text) entry.2 entry.1) =
      ((codeLines text).filterMap fun entry =>
        Routine.ofHeader? text entry.2 entry.1).map Routine.inUpper := by
    rw [codeLines_upper, filterMap_map, map_filterMap]
    exact filterMap_congr fun entry _ => Routine.ofHeader?_upper text entry.2 entry.1
  have hfirst : ∀ routines : List Routine,
      (routines.map Routine.inUpper).foldl Routine.addFirst [] =
      (routines.foldl Routine.addFirst []).map Routine.inUpper :=
    @foldl_keepFirst_map _ Routine.key _ Routine.key_inUpper
  simp only [collect, inUpper, lines_upper, TypeDefinition.keysOf_upper,
    TypeDefinition.collect_upper, hsymbols, hroutines, hfirst]
  rw [foldl_map_map Symbol.inUpper fun found s => Symbol.add_inUpper s found]

end SymbolTable
end KrlWorkbench
