import KrlWorkbench.Proofs.Scope.NamedLines
import KrlWorkbench.Proofs.Symbol.DeclaredKeys

/-!
# The first declaration of a name

A table gives for each name the first symbol that the lines declare
(`rel_firstDeclared_symbol?`); if it is a parameter, a later declaration may have given it a type
and a place.

The lines of a document may also be collected on their own, apart from the rest.  Then types that
the rest defines are not known, so lines that declare variables of these types say nothing.  But all
that such lines add are variables: if the first symbol of a name is a variable or a signal when the
lines stand alone, it is one in the document (`exists_placed_of_firstDeclared`).
-/

namespace KrlWorkbench

open List Code KrlWorkbench.Symbol Text

namespace Symbol

/-! ## Adding to a table -/

/-- The first symbol with a name. -/
def named? (n : Text) (symbols : List Symbol) : Option Symbol :=
  symbols.find? fun s => sameName s.name n

@[simp] lemma named?_nil (n : Text) : named? n [] = none := rfl

lemma named?_cons (n : Text) (s : Symbol) (symbols : List Symbol) :
    named? n (s :: symbols) = if sameName s.name n then some s else named? n symbols := by
  rw [named?, find?_cons]
  cases sameName s.name n <;> rfl

lemma named?_append (n : Text) (a b : List Symbol) :
    named? n (a ++ b) = (named? n a).or (named? n b) :=
  find?_append

lemma mem_of_named? {n : Text} {symbols : List Symbol} {s : Symbol}
    (h : named? n symbols = some s) : s ∈ symbols ∧ sameName s.name n = true :=
  ⟨mem_of_find?_eq_some h, find?_some (p := fun s : Symbol => sameName s.name n) h⟩

/-- What a table keeps of the first symbol of a name: its kind, and everything unless it is a
parameter. -/
structure Kept (s s' : Symbol) : Prop where
  kind : s'.kind = s.kind
  same : s.kind ≠ .parameter → s' = s

lemma Kept.refl (s : Symbol) : Kept s s :=
  ⟨rfl, fun _ => rfl⟩

lemma Kept.trans {s s' s'' : Symbol} (h : Kept s s') (h' : Kept s' s'') : Kept s s'' := by
  refine ⟨h'.kind.trans h.kind, fun hkind => ?_⟩
  rw [h'.same (by rwa [h.kind]), h.same hkind]

lemma kept_refine (old new : Symbol) : Kept old (refine old new) := by
  rw [refine]
  split
  case isTrue h =>
    simp only [Bool.and_eq_true, decide_eq_true_eq] at h
    exact ⟨rfl, fun hkind => absurd h.1 hkind⟩
  case isFalse => exact .refl old

lemma rel_kept_refl (r : Option Symbol) : Option.Rel Kept r r := by
  cases r with
  | none => exact .none
  | some s => exact .some (.refl s)

lemma rel_kept_trans {r r' r'' : Option Symbol} (h : Option.Rel Kept r r')
    (h' : Option.Rel Kept r' r'') : Option.Rel Kept r r'' := by
  cases h with
  | none => exact h'
  | some h =>
    cases h' with
    | some h' => exact .some (h.trans h')

/-- Adding a symbol keeps the first one of each name. -/
lemma rel_named?_add (n : Text) (new : Symbol) (found : List Symbol) :
    Option.Rel Kept ((named? n found).or (named? n [new])) (named? n (add new found)) := by
  induction found with
  | nil => exact rel_kept_refl _
  | cons old rest ih =>
    rw [add]
    split
    case isTrue hkey =>
      have hrefine : sameName (refine old new).name n = sameName old.name n :=
        congrArg (· == upper n) (key_refine old new)
      have hnew : sameName new.name n = sameName old.name n :=
        congrArg (· == upper n) (beq_iff_eq.mp hkey).symm
      rw [named?_cons n old, named?_cons n (refine old new), named?_cons n new, hrefine, hnew]
      by_cases hold : sameName old.name n = true
      · simp only [hold, if_true, Option.some_or]
        exact .some (kept_refine old new)
      · simp only [hold, Bool.false_eq_true, if_false, named?_nil, Option.or_none]
        exact rel_kept_refl _
    case isFalse =>
      rw [named?_cons n old, named?_cons n old]
      by_cases hold : sameName old.name n = true
      · simp only [hold, if_true, Option.some_or]
        exact .some (.refl old)
      · simp only [hold, Bool.false_eq_true, if_false]
        exact ih

lemma rel_named?_foldl_add (n : Text) (symbols found : List Symbol) :
    Option.Rel Kept ((named? n found).or (named? n symbols))
      (named? n (symbols.foldl (fun found s => s.add found) found)) := by
  induction symbols generalizing found with
  | nil =>
    rw [named?_nil, Option.or_none]
    exact rel_kept_refl _
  | cons new symbols ih =>
    rw [foldl_cons, ← singleton_append, named?_append, ← Option.or_assoc]
    exact rel_kept_trans (rel_or (rel_named?_add n new found) (rel_kept_refl _)) (ih _)

end Symbol

/-! ## The lines of a document -/

/-- The first symbol with a name that some lines declare, where `number` is the number of the first
line. -/
def firstDeclared (text : Text) (types : List Text) (n : Text) (number : Nat) (lines : List Text) :
    Option Symbol :=
  (lines.zipIdx number).findSome? fun (line, i) =>
    if allBlank (codePart line) then none
    else named? n (ofLine text types i (codePart line))

section Lines

variable {text : Text} {types : List Text} {n : Text} {number : Nat}

lemma firstDeclared_cons (line : Text) (lines : List Text) :
    firstDeclared text types n number (line :: lines) =
      (if allBlank (codePart line) then none
        else named? n (ofLine text types number (codePart line))).or
        (firstDeclared text types n (number + 1) lines) := by
  rw [firstDeclared, zipIdx_cons, findSome?_cons]
  dsimp only
  split
  case h_1 b h => rw [h, Option.some_or]
  case h_2 h =>
    rw [h, Option.none_or]
    rfl

lemma firstDeclared_append (a b : List Text) :
    firstDeclared text types n number (a ++ b) =
      (firstDeclared text types n number a).or
        (firstDeclared text types n (number + a.length) b) := by
  rw [firstDeclared, zipIdx_append, findSome?_append]
  rfl

lemma exists_of_firstDeclared {lines : List Text} {s : Symbol}
    (h : firstDeclared text types n number lines = some s) :
    ∃ i line, lines[i]? = some line ∧ sameName s.name n = true ∧
      s ∈ ofLine text types (number + i) (codePart line) := by
  obtain ⟨⟨line, i⟩, hmem, h⟩ := exists_of_findSome?_eq_some h
  dsimp only at h
  split_ifs at h
  obtain ⟨hle, hline⟩ := mk_mem_zipIdx_iff_le_and_getElem?_sub.mp hmem
  obtain ⟨hs, hname⟩ := mem_of_named? h
  refine ⟨i - number, line, hline, hname, ?_⟩
  rwa [Nat.add_sub_cancel' hle]

end Lines

lemma findSome?_filter {α β : Type} (p : α → Bool) (f : α → Option β) (l : List α) :
    (l.filter p).findSome? f = l.findSome? fun a => if p a then f a else none := by
  induction l with
  | nil => rfl
  | cons a l ih =>
    rw [filter_cons, findSome?_cons]
    cases p a with
    | true => simp only [if_true, findSome?_cons, ih]
    | false => simp [ih]

/-- **The first declaration counts.** -/
theorem rel_firstDeclared_symbol? (text n : Text) :
    Option.Rel Kept (firstDeclared text (TypeDefinition.keysOf text.lines) n 0 text.lines)
      ((SymbolTable.collect text).symbol? n) := by
  have hfirst : firstDeclared text (TypeDefinition.keysOf text.lines) n 0 text.lines =
      named? n ((SymbolTable.codeLines text).flatMap fun entry =>
        ofLine text (TypeDefinition.keysOf text.lines) entry.1 entry.2) := by
    rw [named?, find?_flatMap, SymbolTable.codeLines, findSome?_filter,
      findSome?_map, firstDeclared]
    refine congrArg (List.findSome? · _) ?_
    funext entry
    simp only [Function.comp_apply]
    cases allBlank (codePart entry.1) <;> rfl
  rw [hfirst]
  exact rel_named?_foldl_add n _ []

/-! ## Lines that are collected alone -/

namespace Symbol

/-- A variable or a signal with a place. -/
def IsPlaced (s : Symbol) : Prop :=
  (s.kind = .var ∨ s.kind = .signal) ∧ s.range.isSome = true

/-- What of a symbol does not depend on the lines around it. -/
def profile (s : Symbol) : Text × SymbolKind × Bool :=
  (s.name, s.kind, s.range.isSome)

lemma IsPlaced.of_profile_eq {s s' : Symbol} (h : s.IsPlaced) (heq : profile s' = profile s) :
    s'.IsPlaced := by
  obtain ⟨-, hkind, hrange⟩ : s'.name = s.name ∧ s'.kind = s.kind ∧
      s'.range.isSome = s.range.isSome := by simpa [profile] using heq
  rw [IsPlaced, hkind, hrange]
  exact h

lemma map_profile_named? (n : Text) (symbols : List Symbol) :
    (named? n symbols).map profile = (symbols.map profile).find? fun p => sameName p.1 n := by
  rw [named?, find?_map]
  rfl

lemma params_ofHeader?_eq (t t' code : Text) (i i' : Nat) :
    (Routine.ofHeader? t code i).map (·.params) =
      (Routine.ofHeader? t' code i').map (·.params) := by
  rw [Routine.ofHeader?, Routine.ofHeader?]
  cases LineRule.functionHeader.find? code with
  | some found =>
    rw [Option.map_map, Option.map_map]
    rfl
  | none =>
    cases LineRule.routineHeader.find? code with
    | none => rfl
    | some found =>
      simp only [Option.bind_eq_bind, Option.bind_some, Option.map_bind]
      rfl

lemma map_profile_ofTypeDefinition (t t' : Text) (i i' : Nat) (found : Match) :
    (ofTypeDefinition t i found).map profile = (ofTypeDefinition t' i' found).map profile := by
  rw [ofTypeDefinition, ofTypeDefinition]
  cases found.group? 4 with
  | none => rfl
  | some name =>
    dsimp only
    split <;> rfl

lemma map_profile_ofSignal (t t' : Text) (i i' : Nat) (found : Match) :
    (ofSignal t i found).map profile = (ofSignal t' i' found).map profile := by
  rw [ofSignal, ofSignal]
  cases found.group? 2 with
  | none => rfl
  | some name =>
    dsimp only
    split <;> rfl

lemma map_profile_ofTypedList (t t' : Text) (i i' : Nat) (parts : TypedList) :
    (ofTypedList t i parts).map profile = (ofTypedList t' i' parts).map profile := by
  rw [ofTypedList, ofTypedList, map_filterMap, map_filterMap]
  refine filterMap_congr fun item _ => ?_
  dsimp only
  split <;> rfl

/-- **One line.**  Where more types are known, a line declares the same symbols, or it said nothing
and declares variables. -/
lemma profile_ofLine {types types' : List Text} (htypes : types ⊆ types') (t t' : Text) (i i' : Nat)
    (code : Text) :
    (ofLine t types i code).map profile = (ofLine t' types' i' code).map profile ∨
      ofLine t types i code = [] ∧ ∀ s ∈ ofLine t' types' i' code, s.IsPlaced := by
  rw [ofLine, ofLine]
  have hheader := params_ofHeader?_eq t t' code i i'
  cases hr : Routine.ofHeader? t code i with
  | some r =>
    rw [hr] at hheader
    obtain ⟨r', hr', hparams⟩ := Option.map_eq_some_iff.mp hheader.symm
    rw [hr']
    refine .inl (congrArg (List.map profile) ?_)
    show ofParams r = ofParams r'
    rw [ofParams, ofParams, hparams]
  | none =>
    rw [hr] at hheader
    rw [Option.map_eq_none_iff.mp hheader.symm]
    cases LineRule.typeDefinition.find? code with
    | some found => exact .inl (map_profile_ofTypeDefinition t t' i i' found)
    | none =>
      cases LineRule.signal.find? code with
      | some found => exact .inl (map_profile_ofSignal t t' i i' found)
      | none =>
        -- Only a list of variables depends on the types that are known.
        cases hparts : TypedList.ofCode? types code with
        | some parts =>
          rw [TypedList.ofCode?_mono htypes hparts]
          exact .inl (map_profile_ofTypedList t t' i i' parts)
        | none =>
          refine .inr ⟨rfl, ?_⟩
          cases TypedList.ofCode? types' code with
          | none => simp
          | some parts =>
            intro s hs
            obtain ⟨hkind, hrange⟩ := placed_of_mem_ofTypedList hs
            exact ⟨.inl hkind, hrange⟩

end Symbol

/-- **Lines that are collected alone.**  If the first symbol of a name is a variable or a signal
with a place, so it is where more types are known. -/
theorem exists_placed_of_firstDeclared {t : Text} {types types' : List Text}
    (htypes : types ⊆ types') {n : Text} {lines : List Text} {number : Nat} {s : Symbol}
    (h : firstDeclared t types n number lines = some s) (hs : s.IsPlaced) (t' : Text)
    (number' : Nat) : ∃ s', firstDeclared t' types' n number' lines = some s' ∧ s'.IsPlaced := by
  induction lines generalizing number number' with
  | nil => simp [firstDeclared] at h
  | cons line lines ih =>
    rw [firstDeclared_cons] at h ⊢
    by_cases hblank : allBlank (codePart line) = true
    · simp only [hblank, if_true, Option.none_or] at h ⊢
      exact ih h _
    · simp only [hblank, Bool.false_eq_true, if_false] at h ⊢
      rcases profile_ofLine htypes t t' number number' (codePart line) with
        hsame | ⟨hnil, hplaced⟩
      · -- Both lines have the name or neither has it.
        have hnamed := map_profile_named? n
          (ofLine t' types' number' (codePart line))
        rw [← hsame, ← map_profile_named?] at hnamed
        cases hhere : named? n (ofLine t types number (codePart line)) with
        | none =>
          rw [hhere, Option.map_none, Option.map_eq_none_iff] at hnamed
          rw [hhere, Option.none_or] at h
          rw [hnamed, Option.none_or]
          exact ih h _
        | some first =>
          rw [hhere, Option.some_or, Option.some.injEq] at h
          subst h
          rw [hhere, Option.map_some] at hnamed
          obtain ⟨s', hs', hprofile⟩ := Option.map_eq_some_iff.mp hnamed
          rw [hs', Option.some_or]
          exact ⟨s', rfl, hs.of_profile_eq hprofile⟩
      -- The line declares only where its type is known, and then with places.
      · rw [hnil, named?_nil, Option.none_or] at h
        cases hhere : named? n
            (ofLine t' types' number' (codePart line)) with
        | none =>
          exact ih h _
        | some s' =>
          exact ⟨s', rfl, hplaced s' (mem_of_named? hhere).1⟩

end KrlWorkbench
