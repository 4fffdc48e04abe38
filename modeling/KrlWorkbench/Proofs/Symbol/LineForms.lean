import KrlWorkbench.Proofs.Pattern.Fits
import KrlWorkbench.Symbol.Collect

/-!
# The forms of declarations

A line declares by one of a few rules, and each rule gives its symbols one form.
`Symbol.FromLine` lists them, with what the rules have found, so that whatever is to be shown of all
that lines declare is shown for each form once.
-/

namespace KrlWorkbench

open Text

variable {text code : Text} {line : Nat}

/-- A part that the pattern of a rule always has is found with it. -/
lemma LineRule.isSome_group? {rule : LineRule} {i : Nat} (hbinds : rule.pattern.binds i = true)
    {found : Match} (h : rule.find? code = some found) : (found.group? i).isSome = true := by
  obtain ⟨_, _, _, -, -, hfits⟩ := Pattern.matches_of_find? h
  exact hfits.isSome_lookup hbinds

/-- Whether a line of code is the header of a routine. -/
def Routine.isHeader (code : Text) : Bool :=
  LineRule.routineHeader.holds code || LineRule.functionHeader.holds code

lemma Routine.isSome_ofHeader? (text code : Text) (line : Nat) :
    (ofHeader? text code line).isSome = isHeader code := by
  rw [ofHeader?, isHeader, LineRule.holds, LineRule.holds, Pattern.isIn, Pattern.isIn,
    ← LineRule.find?, ← LineRule.find?]
  cases hfunction : LineRule.functionHeader.find? code with
  | some found => simp [LineRule.isSome_group? (i := 3) rfl hfunction]
  | none =>
    cases hroutine : LineRule.routineHeader.find? code with
    | some found =>
      obtain ⟨c, hc⟩ := Option.isSome_iff_exists.mp (LineRule.isSome_group? (i := 2) rfl hroutine)
      simp [hc]
    | none => rfl

/-- A routine is put together from the parts of its header. -/
lemma Routine.exists_ofParts {r : Routine} (h : ofHeader? text code line = some r) :
    ∃ isGlobal returnType name params, name.Inside code ∧
      r = ofParts text line isGlobal returnType name params := by
  rw [ofHeader?] at h
  split at h
  case h_1 found hfound =>
    obtain ⟨name, hname, rfl⟩ := Option.map_eq_some_iff.mp h
    exact ⟨_, _, name, _, (Pattern.matches_of_find? hfound).inside.group? hname, rfl⟩
  case h_2 =>
    obtain ⟨found, hfound, h⟩ := Option.bind_eq_some_iff.mp h
    obtain ⟨name, hname, h⟩ := Option.bind_eq_some_iff.mp h
    obtain rfl := Option.some.inj h
    exact ⟨_, _, name, _, (Pattern.matches_of_find? hfound).inside.group? hname, rfl⟩

/-- A symbol that a line of code declares. -/
inductive Symbol.FromLine (text : Text) (types : List Text) (line : Nat) (code : Text) :
    Symbol → Prop
  | parameter {r : Routine} {p : Param} (hr : Routine.ofHeader? text code line = some r)
      (hp : p ∈ r.params) :
      FromLine text types line code ⟨p.name, .parameter, none, none, false, none⟩
  | enumMember {member : Text} (hname : isIdentifier member = true) (type : Text)
      (isGlobal : Bool) :
      FromLine text types line code ⟨member, .enumMember, some type, none, isGlobal, none⟩
  | record {name : Capture} (hname : name.Inside code) (isGlobal : Bool) (value : Option Text) :
      FromLine text types line code ⟨name.text, .record, none,
        some (text.span line name.start (byteLength name.text)), isGlobal, value⟩
  | signal {found : Match} {name : Capture} (hfound : LineRule.signal.find? code = some found)
      (hgroup : found.group? 2 = some name) (hname : isIdentifier name.text = true)
      (isGlobal : Bool) (value : Option Text) :
      FromLine text types line code ⟨name.text, .signal, none,
        some (text.span line name.start (byteLength name.text)), isGlobal, value⟩
  | var {parts : TypedList} {item : ListItem} (hparts : TypedList.ofCode? types code = some parts)
      (hitem : item ∈ ListItem.split parts.list) (hname : isIdentifier item.name = true) :
      FromLine text types line code ⟨item.name, .var, some parts.typeName,
        some (text.span line (parts.listStart + item.nameOffset) (byteLength item.name)),
        parts.isGlobal, item.value⟩

lemma Symbol.fromLine_of_mem {types : List Text} {s : Symbol}
    (h : s ∈ ofLine text types line code) : FromLine text types line code s := by
  rw [ofLine] at h
  split at h
  case h_1 r hr =>
    obtain ⟨p, hp, rfl⟩ := List.mem_map.mp h
    exact .parameter hr hp
  case h_2 =>
    split at h
    case h_1 found hfound =>
      rw [ofTypeDefinition] at h
      split at h
      case h_1 => cases h
      case h_2 name hname =>
        split at h
        case isTrue =>
          obtain ⟨member, -, hmember⟩ := List.mem_filterMap.mp h
          split at hmember <;> cases hmember
          exact .enumMember ‹_› _ _
        case isFalse =>
          obtain rfl := List.mem_singleton.mp h
          exact .record ((Pattern.matches_of_find? hfound).inside.group? hname) _ _
    case h_2 =>
      split at h
      case h_1 found hfound =>
        rw [ofSignal] at h
        split at h
        case h_1 => cases h
        case h_2 name hgroup =>
          split at h
          case isTrue hname =>
            obtain rfl := List.mem_singleton.mp h
            exact .signal hfound hgroup hname _ _
          case isFalse => cases h
      case h_2 =>
        split at h
        case h_1 parts hparts =>
          obtain ⟨item, hitem, hs⟩ := List.mem_filterMap.mp h
          dsimp only at hs
          split at hs <;> cases hs
          exact .var hparts hitem ‹_›
        case h_2 => cases h

end KrlWorkbench
