import KrlWorkbench.Proofs.Finding.KindLines
import KrlWorkbench.Proofs.Symbol.SignatureLabels

/-!
# Names declared twice

A declared name has to be the only one of its scope.  The routines of a document share one scope,
and so do the variables outside routine bodies, wherever in the document they stand.  The body
behind a routine header is a scope of its own up to the line that closes the routine, or up to the
next header if nothing does (`scopeBelow`).  `Context.occurrences` lists the declared names in the
order of the document, each with its scope; a name is to be reported if one before it equals it in
the same scope, and the message cites the first such one (`NameOccurrence.repeated?`).

The check goes through the lines once.  It carries tables of the names met so far and the
parameters whose declaration in the body is still to come.  The tables hold for each name the first
line that declares it (`Tracks`); a parameter that is still waiting has not been declared in the
body, so that leaving its first declaration out of the check reports nothing less.
-/

namespace KrlWorkbench

open List LineRule Text

/-! ## Keywords without `S` and `K` -/

/-- A keyword without the two letters that equal one outside ASCII is matched by ASCII texts only.
-/
lemma Text.isAscii_of_sameWord {k w : Text}
    (hk : ∀ c ∈ k, isAscii c = true ∧ lowerAscii c ≠ 's' ∧ lowerAscii c ≠ 'k')
    (h : sameWord k w = true) : ∀ c ∈ w, isAscii c = true := by
  induction k generalizing w with
  | nil => simp [sameWord_nil_left.mp h]
  | cons d k ih =>
    cases w with
    | nil => simp
    | cons c w =>
      obtain ⟨hfold, hrest⟩ := sameWord_cons_cons.mp h
      obtain ⟨hascii, hs, hkelvin⟩ := hk d mem_cons_self
      refine forall_mem_cons.mpr
        ⟨?_, ih (forall_mem_cons.mp hk).2 hrest⟩
      rcases sameFold_cases hascii hfold with ⟨hc, -⟩ | ⟨-, hlower⟩ | ⟨-, hlower⟩
      · exact hc
      · exact absurd hlower hs
      · exact absurd hlower hkelvin

/-- Such a keyword is matched by its spellings in either case. -/
lemma Text.sameName_of_sameWord {k w : Text}
    (hk : ∀ c ∈ k, isAscii c = true ∧ lowerAscii c ≠ 's' ∧ lowerAscii c ≠ 'k')
    (h : sameWord k w = true) : sameName w k = true :=
  beq_iff_eq.mpr (upper_eq_of_sameWord (fun c hc => (hk c hc).1) (isAscii_of_sameWord hk h) h).symm

/-! ## Scopes -/

/-- What a declared name has to be the only one in. -/
inductive DeclarationScope where
  /-- The routines of a document. -/
  | routines
  /-- The variables of a document outside routine bodies. -/
  | module
  /-- The variables of the body that the header in a line opens. -/
  | body (header : Nat)
  deriving DecidableEq, Repr

/-- The name in the header of a routine. -/
def Routine.headerName? (code : Text) : Option Capture :=
  match functionHeader.find? code with
  | some found => found.group? 3
  | none => (routineHeader.find? code).bind (·.group? 2)

namespace SourceLine

/-- Whether a line is the header of a routine. -/
def isHeader (line : SourceLine) : Bool :=
  Routine.isHeader line.code

/-- Whether a line closes a routine, with `END` or with `ENDFCT`. -/
def closesRoutine (line : SourceLine) : Bool :=
  (scopeCloser.find? line.code).any fun found =>
    sameName (found.text 1) "END".toList || sameName (found.text 1) "ENDFCT".toList

end SourceLine

/-- A header is read exactly if it has a name, and the routine has the name and its place. -/
lemma Routine.map_ofHeader? (text code : Text) (line : Nat) :
    (ofHeader? text code line).map (fun r => (r.name, r.symbol.range)) =
      (headerName? code).map fun name =>
        (name.text, some (text.span line name.start (byteLength name.text))) := by
  unfold ofHeader? headerName?
  cases functionHeader.find? code with
  | some found => rw [Option.map_map]; rfl
  | none =>
    cases routineHeader.find? code with
    | none => rfl
    | some found => cases hname : found.group? 2 <;> simp [hname, ofParts, name]

lemma SourceLine.isHeader_eq (line : SourceLine) :
    line.isHeader = (Routine.headerName? line.code).isSome := by
  have hread := congrArg Option.isSome (Routine.map_ofHeader? [] line.code 0)
  rw [Option.isSome_map, Option.isSome_map] at hread
  rw [isHeader, ← hread, Routine.isSome_ofHeader?]

lemma SourceLine.closesRoutine_of_find? {line : SourceLine} {found : Match}
    (h : scopeCloser.find? line.code = some found) :
    line.closesRoutine = !sameName (found.text 1) "ENDDAT".toList := by
  obtain ⟨_, _, _, hfits⟩ := exists_fits_text (i := 1) rfl rfl h
  obtain ⟨k, hk, hsame⟩ := hfits.exists_keyword
  have hplain : ∀ k ∈ ["END", "ENDFCT", "ENDDAT"], ∀ c ∈ k.toList,
      isAscii c = true ∧ lowerAscii c ≠ 's' ∧ lowerAscii c ≠ 'k' := by decide
  have hupper : upper (found.text 1) = upper k.toList :=
    beq_iff_eq.mp (sameName_of_sameWord (hplain k hk) hsame)
  have hcases : ∀ k ∈ ["END", "ENDFCT", "ENDDAT"],
      (upper k.toList == upper "END".toList || upper k.toList == upper "ENDFCT".toList) =
        !(upper k.toList == upper "ENDDAT".toList) := by decide
  rw [closesRoutine, h, Option.any_some, sameName, sameName, sameName, hupper]
  exact hcases k hk

/-- The scope of the variables declared below some lines: the body of the latest routine, unless a
line below its header closes it. -/
def scopeBelow (above : List SourceLine) : DeclarationScope :=
  match above.reverse.find? (·.isHeader) with
  | some header =>
    if (above.reverse.takeWhile fun line => !line.isHeader).any (·.closesRoutine) then .module
    else .body header.number
  | none => .module

section ScopeBelow

variable {above : List SourceLine} {line : SourceLine}

lemma scopeBelow_append_header (h : line.isHeader = true) :
    scopeBelow (above ++ [line]) = .body line.number := by
  simp [scopeBelow, h]

lemma scopeBelow_append_closer (h : line.isHeader = false) (hcloses : line.closesRoutine = true) :
    scopeBelow (above ++ [line]) = .module := by
  simp only [scopeBelow, reverse_append, reverse_singleton, singleton_append, find?_cons, h,
    takeWhile_cons, Bool.not_false, if_true, any_cons, hcloses, Bool.true_or]
  split <;> rfl

lemma scopeBelow_append_other (h : line.isHeader = false) (hcloses : line.closesRoutine = false) :
    scopeBelow (above ++ [line]) = scopeBelow above := by
  simp [scopeBelow, h, hcloses]

lemma scopeBelow_ne_routines (above : List SourceLine) : scopeBelow above ≠ .routines := by
  unfold scopeBelow
  split
  · split <;> simp
  · simp

lemma exists_header_of_scopeBelow {n : Nat} (h : scopeBelow above = .body n) :
    ∃ line ∈ above, line.number = n := by
  unfold scopeBelow at h
  split at h
  case h_1 header hfind =>
    split at h
    · simp at h
    · exact ⟨header, mem_reverse.mp (mem_of_find?_eq_some hfind), by simpa using h⟩
  case h_2 => simp at h

end ScopeBelow

/-! ## Declared names in the order of the document -/

/-- Each element of a list with the ones in front of it; `earlier` are those before the list. -/
def withEarlier {α : Type} (earlier : List α) : List α → List (List α × α)
  | [] => []
  | a :: rest => (earlier, a) :: withEarlier (earlier ++ [a]) rest

lemma withEarlier_append {α : Type} (earlier a b : List α) :
    withEarlier earlier (a ++ b) = withEarlier earlier a ++ withEarlier (earlier ++ a) b := by
  induction a generalizing earlier with
  | nil => simp [withEarlier]
  | cons x a ih => simp [withEarlier, ih]

/-- A name where it is declared. -/
structure NameOccurrence where
  scope : DeclarationScope
  line : Nat
  name : Capture
  deriving DecidableEq, Repr

variable {name : Capture} {seen : List NameOccurrence} {o : NameOccurrence}

namespace NameOccurrence

/-- Whether two names are the same in the same scope. -/
def clashes (o first : NameOccurrence) : Bool :=
  first.scope == o.scope && sameName first.name.text o.name.text

/-- What is wrong with a name that was declared in a line before. -/
def cause (o : NameOccurrence) (firstLine : Nat) : Cause :=
  match o.scope with
  | .routines => .duplicateRoutine o.name.text (firstLine + 1)
  | _ => .duplicateVariable o.name.text (firstLine + 1)

lemma cause_of_ne_routines (h : o.scope ≠ .routines) (firstLine : Nat) :
    o.cause firstLine = .duplicateVariable o.name.text (firstLine + 1) := by
  unfold cause
  split
  case h_1 hroutines => exact absurd hroutines h
  case h_2 => rfl

/-- The finding for a name, if one of the earlier names is the same. -/
def repeated? (ctx : Context) (earlier : List NameOccurrence) (o : NameOccurrence) :
    Option Finding :=
  (earlier.find? o.clashes).map fun first =>
    ⟨ctx.span o.line o.name.start (byteLength o.name.text), o.cause first.line⟩

end NameOccurrence

/-- The names a line declares: a routine, or else the variables of a line that closes nothing. -/
def SourceLine.occurrences (ctx : Context) (above : List SourceLine) (line : SourceLine) :
    List NameOccurrence :=
  match Routine.headerName? line.code with
  | some name => [⟨.routines, line.number, name⟩]
  | none =>
    if scopeCloser.holds line.code then []
    else (ctx.declaredIn line.code).map fun name => ⟨scopeBelow above, line.number, name⟩

section Occurrences

variable {ctx : Context} {above : List SourceLine} {line : SourceLine}

lemma SourceLine.occurrences_header (h : Routine.headerName? line.code = some name) :
    line.occurrences ctx above = [⟨.routines, line.number, name⟩] := by
  rw [occurrences, h]

lemma SourceLine.occurrences_closer (h : Routine.headerName? line.code = none) {found : Match}
    (hcloser : scopeCloser.find? line.code = some found) : line.occurrences ctx above = [] := by
  have hholds : scopeCloser.holds line.code = true := Option.isSome_of_eq_some hcloser
  simp only [occurrences, h, hholds, if_true]

lemma SourceLine.occurrences_other (h : Routine.headerName? line.code = none)
    (hcloser : scopeCloser.find? line.code = none) :
    line.occurrences ctx above =
      (ctx.declaredIn line.code).map fun name => ⟨scopeBelow above, line.number, name⟩ := by
  have hholds : scopeCloser.holds line.code = false := Option.isSome_eq_false_iff.mpr
    (Option.isNone_iff_eq_none.mpr hcloser)
  simp only [occurrences, h, hholds, Bool.false_eq_true, if_false]

end Occurrences

/-- The names a document declares. -/
def Context.occurrences (ctx : Context) : List NameOccurrence :=
  (withEarlier [] ctx.lines).flatMap fun entry => entry.2.occurrences ctx entry.1

namespace Finding

/-- The findings for the names among `names` that are declared before, be it among `earlier`. -/
def repeats (ctx : Context) (earlier names : List NameOccurrence) : List Finding :=
  (withEarlier earlier names).filterMap fun entry => entry.2.repeated? ctx entry.1

lemma repeats_cons (ctx : Context) (earlier names : List NameOccurrence) (o : NameOccurrence) :
    repeats ctx earlier (o :: names) =
      (o.repeated? ctx earlier).toList ++ repeats ctx (earlier ++ [o]) names := by
  cases h : o.repeated? ctx earlier <;> simp [repeats, withEarlier, h]

lemma repeats_append (ctx : Context) (earlier a b : List NameOccurrence) :
    repeats ctx earlier (a ++ b) = repeats ctx earlier a ++ repeats ctx (earlier ++ a) b := by
  simp [repeats, withEarlier_append]

/-! ## The tables of the check -/

/-- The line that declares a name first in a scope. -/
def firstLine? (seen : List NameOccurrence) (scope : DeclarationScope) (key : Text) : Option Nat :=
  (seen.find? fun o => o.scope == scope && upper o.name.text == key).map (·.line)

lemma firstLine?_append (seen : List NameOccurrence) (o : NameOccurrence)
    (scope : DeclarationScope) (key : Text) :
    firstLine? (seen ++ [o]) scope key =
      (firstLine? seen scope key).or
        (if o.scope = scope ∧ upper o.name.text = key then some o.line else none) := by
  rw [firstLine?, find?_append, Option.map_or, ← firstLine?]
  by_cases h : o.scope = scope ∧ upper o.name.text = key
  · simp [h.1, h.2]
  · rw [if_neg h, find?_singleton, if_neg (by simpa using h), Option.map_none]

lemma firstLine?_append_of_ne {scope : DeclarationScope} (h : o.scope ≠ scope) (key : Text) :
    firstLine? (seen ++ [o]) scope key = firstLine? seen scope key := by
  rw [firstLine?_append, if_neg fun hsame => h hsame.1, Option.or_none]

lemma firstLine?_append_of_taken (h : (firstLine? seen o.scope (upper o.name.text)).isSome = true)
    (scope : DeclarationScope) (key : Text) :
    firstLine? (seen ++ [o]) scope key = firstLine? seen scope key := by
  rw [firstLine?_append]
  split
  case isTrue hsame =>
    obtain ⟨rfl, rfl⟩ := hsame
    exact Option.or_of_isSome h
  case isFalse => exact Option.or_none

lemma firstLine?_append_of_new (h : firstLine? seen o.scope (upper o.name.text) = none)
    (key : Text) :
    firstLine? (seen ++ [o]) o.scope key =
      if key = upper o.name.text then some o.line else firstLine? seen o.scope key := by
  rw [firstLine?_append]
  by_cases hkey : key = upper o.name.text
  · rw [if_pos hkey, hkey, h, if_pos ⟨rfl, rfl⟩, Option.none_or]
  · rw [if_neg hkey, if_neg fun hsame => hkey hsame.2.symm, Option.or_none]

lemma repeated?_eq (ctx : Context) (seen : List NameOccurrence) (o : NameOccurrence) :
    o.repeated? ctx seen = (firstLine? seen o.scope (upper o.name.text)).map fun first =>
      ⟨ctx.span o.line o.name.start (byteLength o.name.text), o.cause first⟩ := by
  rw [NameOccurrence.repeated?, firstLine?, Option.map_map]
  rfl

lemma lookup_cons_eq (entry : Text × Nat) (table : List (Text × Nat)) (key : Text) :
    (entry :: table).lookup key = if key = entry.1 then some entry.2 else table.lookup key := by
  obtain ⟨name, line⟩ := entry
  by_cases h : key = name
  · simp [h]
  · rw [if_neg h, lookup_cons, beq_eq_false_iff_ne.mpr h]

namespace Declared

variable (d : Declared) (key : Text) (line : Nat)

lemma scope_add : (d.add key line).scope = (key, line) :: d.scope := by
  cases h : d.body <;> simp [add, scope, h]

lemma body_add : (d.add key line).body = none ↔ d.body = none := by
  cases h : d.body <;> simp [add, h]

lemma module_add :
    (d.add key line).module = if d.body = none then (key, line) :: d.module else d.module := by
  cases h : d.body <;> simp [add, h]

lemma routines_add : (d.add key line).routines = d.routines := by
  cases h : d.body <;> simp [add, h]

lemma params_add : (d.add key line).params = d.params := by
  cases h : d.body <;> simp [add, h]

lemma lookup_addRoutine (key' : Text) :
    (d.addRoutine key line).routines.lookup key' =
      (d.routines.lookup key').or (if key = key' then some line else none) := by
  rw [addRoutine]
  by_cases hkey : key = key'
  · subst hkey
    split
    case isTrue h => rw [Option.or_of_isSome h]
    case isFalse h => simp [Option.not_isSome_iff_eq_none.mp h]
  · rw [if_neg hkey, Option.or_none]
    split
    · rfl
    · rw [lookup_cons_eq, if_neg (Ne.symm hkey)]

end Declared

/-- The state of the check below the lines `above`, which declare the names `seen`. -/
structure Tracks (above : List SourceLine) (seen : List NameOccurrence) (d : Declared) : Prop where
  routines : ∀ key, d.routines.lookup key = firstLine? seen .routines key
  module : ∀ key, d.module.lookup key = firstLine? seen .module key
  scope : ∀ key, d.scope.lookup key = firstLine? seen (scopeBelow above) key
  /-- The check knows whether it is in a body. -/
  body : d.body = none ↔ scopeBelow above = .module
  /-- A parameter that waits for its declaration is not declared in the body. -/
  params : d.body ≠ none → ∀ key ∈ d.params, firstLine? seen (scopeBelow above) key = none
  /-- Names stand in bodies whose header has been met. -/
  opened : ∀ o ∈ seen, ∀ h, o.scope = .body h → ∃ line ∈ above, line.number = h

namespace Tracks

variable {above : List SourceLine} {seen : List NameOccurrence} {d : Declared}
  {line : SourceLine} {o : NameOccurrence}

lemma initial : Tracks [] [] {} where
  routines _ := rfl
  module _ := rfl
  scope _ := rfl
  body := by simp [scopeBelow]
  params := by simp
  opened := by simp

/-! ### The names of a line, one by one -/

variable (h : Tracks above seen d)
include h

lemma opened_append (hscope : o.scope = scopeBelow above) :
    ∀ o' ∈ seen ++ [o], ∀ n, o'.scope = .body n → ∃ line ∈ above, line.number = n := by
  intro o' ho' n hn
  rcases mem_append.mp ho' with ho' | ho'
  · exact h.opened o' ho' n hn
  · obtain rfl := mem_singleton.mp ho'
    exact exists_header_of_scopeBelow (hscope.symm.trans hn)

/-- A name that is taken leaves the tables as they are. -/
lemma taken (hscope : o.scope = scopeBelow above)
    (htaken : (firstLine? seen o.scope (upper o.name.text)).isSome = true) :
    Tracks above (seen ++ [o]) d where
  routines key := by rw [firstLine?_append_of_taken htaken, h.routines]
  module key := by rw [firstLine?_append_of_taken htaken, h.module]
  scope key := by rw [firstLine?_append_of_taken htaken, h.scope]
  body := h.body
  params hbody key hkey := by rw [firstLine?_append_of_taken htaken, h.params hbody key hkey]
  opened := h.opened_append hscope

/-- A name that is not taken is entered into the tables, and no parameter of this name waits any
longer. -/
lemma entered (hscope : o.scope = scopeBelow above)
    (hnew : firstLine? seen o.scope (upper o.name.text) = none) {params : List Text}
    (hsub : params ⊆ d.params) (hkey : d.body ≠ none → upper o.name.text ∉ params) :
    Tracks above (seen ++ [o]) ({ d with params := params }.add (upper o.name.text) o.line) where
  routines key := by
    have hne : o.scope ≠ .routines := hscope ▸ scopeBelow_ne_routines above
    rw [Declared.routines_add, firstLine?_append_of_ne hne, h.routines]
  module key := by
    rw [Declared.module_add]
    split
    case isTrue hbody =>
      have hmodule : o.scope = .module := hscope.trans (h.body.mp hbody)
      rw [lookup_cons_eq, h.module, ← hmodule, firstLine?_append_of_new hnew]
    case isFalse hbody =>
      have hne : o.scope ≠ .module := fun hmodule => hbody (h.body.mpr (hscope.symm.trans hmodule))
      rw [firstLine?_append_of_ne hne, h.module]
  scope key := by
    rw [Declared.scope_add, lookup_cons_eq, ← hscope, firstLine?_append_of_new hnew, hscope,
      ← h.scope]
    rfl
  body := (Declared.body_add ..).trans h.body
  params hbody key hmem := by
    rw [Declared.params_add] at hmem
    have hbody' : d.body ≠ none := fun hnone => hbody ((Declared.body_add ..).mpr hnone)
    have hne : key ≠ upper o.name.text := fun heq => hkey hbody' (heq ▸ hmem)
    rw [← hscope, firstLine?_append_of_new hnew, if_neg hne, hscope]
    exact h.params hbody' key (hsub hmem)
  opened := h.opened_append hscope

/-- **The names of a line.**  The check reports those that are declared before and has all of them
in its tables afterwards. -/
lemma duplicatesIn (ctx : Context) (number : Nat)
    (names : List Capture) :
    (Finding.duplicatesIn ctx number d names).1 =
        repeats ctx seen (names.map fun name => ⟨scopeBelow above, number, name⟩) ∧
      Tracks above (seen ++ names.map fun name => ⟨scopeBelow above, number, name⟩)
        (Finding.duplicatesIn ctx number d names).2 := by
  induction names generalizing seen d with
  | nil => exact ⟨rfl, by simpa [Finding.duplicatesIn] using h⟩
  | cons name names ih =>
    have hcons := append_cons seen (⟨scopeBelow above, number, name⟩ : NameOccurrence)
      (names.map fun name => ⟨scopeBelow above, number, name⟩)
    rw [map_cons, repeats_cons, repeated?_eq, hcons, Finding.duplicatesIn]
    split
    case isTrue hparam =>
      -- A waiting parameter has no earlier declaration in the body, so nothing is left out.
      rw [Bool.and_eq_true, contains_iff_mem, Option.isSome_iff_ne_none] at hparam
      have hnew := h.params hparam.1 _ hparam.2
      rw [hnew, Option.map_none, Option.toList_none, nil_append]
      exact ih (h.entered rfl hnew (filter_subset_self _) fun _ => by simp)
    case isFalse hparam =>
      rw [h.scope]
      split
      case h_1 first hfirst =>
        have htaken : (firstLine? seen (scopeBelow above) (upper name.text)).isSome = true := by
          rw [hfirst, Option.isSome_some]
        obtain ⟨hfound, htracks⟩ :=
          ih (h.taken (o := ⟨scopeBelow above, number, name⟩) rfl htaken)
        refine ⟨?_, htracks⟩
        rw [hfirst, ← hfound, Option.map_some,
          NameOccurrence.cause_of_ne_routines (scopeBelow_ne_routines above)]
        rfl
      case h_2 hnew =>
        rw [hnew, Option.map_none, Option.toList_none, nil_append]
        refine ih (h.entered rfl hnew (List.Subset.refl _) fun hbody hmem => hparam ?_)
        simpa [Option.isSome_iff_ne_none, hbody] using hmem

/-! ### Line by line -/

/-- A line that changes nothing about the scope. -/
lemma below (hscope : scopeBelow (above ++ [line]) = scopeBelow above) :
    Tracks (above ++ [line]) seen d where
  routines := h.routines
  module := h.module
  scope := by rw [hscope]; exact h.scope
  body := by rw [hscope]; exact h.body
  params := by rw [hscope]; exact h.params
  opened o ho n hn := by
    obtain ⟨line', hline', hnumber⟩ := h.opened o ho n hn
    exact ⟨line', mem_append_left _ hline', hnumber⟩

/-- Behind the end of a routine the variables are those of the module. -/
lemma leave (hscope : scopeBelow (above ++ [line]) = .module) :
    Tracks (above ++ [line]) seen d.leave where
  routines := h.routines
  module := h.module
  scope := by rw [hscope]; exact h.module
  body := by simp [Declared.leave, hscope]
  params := by simp [Declared.leave]
  opened o ho n hn := by
    obtain ⟨line', hline', hnumber⟩ := h.opened o ho n hn
    exact ⟨line', mem_append_left _ hline', hnumber⟩

/-- Behind a header a body begins in which nothing is declared yet. -/
lemma enter (hfresh : ∀ l ∈ above, l.number ≠ line.number)
    (hname : Routine.headerName? line.code = some name) {r : Routine} (hr : r.name = name.text) :
    Tracks (above ++ [line]) (seen ++ [⟨.routines, line.number, name⟩])
      ((d.addRoutine r.key line.number).enter r) := by
  have hscope : scopeBelow (above ++ [line]) = .body line.number :=
    scopeBelow_append_header (by rw [SourceLine.isHeader_eq, hname, Option.isSome_some])
  have hkey : r.key = upper name.text := by rw [← hr]; rfl
  have hmodule : (d.addRoutine r.key line.number).module = d.module := by
    rw [Declared.addRoutine]
    split <;> rfl
  -- A body is known by the line of its header, and no line above has that number.
  have hempty : ∀ key, firstLine? (seen ++ [⟨.routines, line.number, name⟩])
      (.body line.number) key = none := by
    intro key
    rw [firstLine?_append_of_ne (by simp), firstLine?, Option.map_eq_none_iff, List.find?_eq_none]
    intro o ho hsame
    rw [Bool.and_eq_true, beq_iff_eq] at hsame
    obtain ⟨l, hl, hnumber⟩ := h.opened o ho _ hsame.1
    exact hfresh l hl hnumber
  constructor
  · intro key
    rw [firstLine?_append, ← h.routines]
    simp only [Declared.enter, Declared.lookup_addRoutine, hkey, true_and]
  · intro key
    rw [firstLine?_append_of_ne (by simp), ← h.module, ← hmodule]
    rfl
  · intro key
    rw [hscope, hempty]
    rfl
  · simp [Declared.enter, hscope]
  · intro _ key _
    rw [hscope, hempty]
  · intro o ho n hn
    rcases mem_append.mp ho with ho | ho
    · obtain ⟨l, hl, hnumber⟩ := h.opened o ho n hn
      exact ⟨l, mem_append_left _ hl, hnumber⟩
    · obtain rfl := mem_singleton.mp ho
      simp at hn

end Tracks

lemma duplicateRoutine_eq {ctx : Context} {above : List SourceLine} {d : Declared}
    (h : Tracks above seen d) {r : Routine} {number : Nat} (hname : r.name = name.text)
    (hrange : r.symbol.range = some (ctx.span number name.start (byteLength name.text))) :
    duplicateRoutine d r =
      (NameOccurrence.repeated? ctx seen ⟨.routines, number, name⟩).toList := by
  have hkey : r.key = upper name.text := by rw [← hname]; rfl
  rw [duplicateRoutine, h.routines, hkey, hrange, repeated?_eq, hname]
  cases firstLine? seen .routines (upper name.text) <;> rfl

/-- **The run of the check.**  With the names `seen` in its tables it reports, of the names below,
those that are declared before. -/
lemma duplicatesFrom_eq_repeats {ctx : Context} {above : List SourceLine} {d : Declared}
    (h : Tracks above seen d) (below : List SourceLine)
    (hnumbers : ((above ++ below).map SourceLine.number).Nodup) :
    duplicatesFrom ctx d below = repeats ctx seen
      ((withEarlier above below).flatMap fun entry => entry.2.occurrences ctx entry.1) := by
  -- On the lines below; the tables track the names above, line by line.
  induction below generalizing above seen d with
  | nil => rfl
  | cons line below ih =>
    have hnext : (((above ++ [line]) ++ below).map SourceLine.number).Nodup := by
      simpa using hnumbers
    have hread := Routine.map_ofHeader? ctx.text line.code line.number
    rw [withEarlier, flatMap_cons, repeats_append, duplicatesFrom]
    cases hname : Routine.headerName? line.code with
    | some name =>
      rw [hname, Option.map_some, Option.map_eq_some_iff] at hread
      obtain ⟨r, hr, hparts⟩ := hread
      obtain ⟨hrname, hrange⟩ := Prod.mk.inj hparts
      have hfresh : ∀ l ∈ above, l.number ≠ line.number := by
        intro l hl
        rw [map_append, nodup_append] at hnumbers
        exact hnumbers.2.2 _ (mem_map_of_mem hl) _ (by simp)
      simp only [hr, SourceLine.occurrences_header hname]
      rw [duplicateRoutine_eq h hrname hrange, ih (h.enter hfresh hname hrname) hnext, repeats_cons]
      simp [repeats, withEarlier]
    | none =>
      have hheader : line.isHeader = false := by
        rw [SourceLine.isHeader_eq, hname, Option.isSome_none]
      rw [hname, Option.map_none, Option.map_eq_none_iff] at hread
      cases hcloser : scopeCloser.find? line.code with
      | some found =>
        have hcloses := SourceLine.closesRoutine_of_find? hcloser
        simp only [hread, SourceLine.occurrences_closer hname hcloser, append_nil]
        -- The end of a data list leaves the scope as it is.
        cases hdata : sameName (found.text 1) "ENDDAT".toList with
        | true =>
          rw [hdata, Bool.not_true] at hcloses
          exact ih (h.below (scopeBelow_append_other hheader hcloses)) hnext
        | false =>
          rw [hdata, Bool.not_false] at hcloses
          exact ih (h.leave (scopeBelow_append_closer hheader hcloses)) hnext
      | none =>
        have hcloses : line.closesRoutine = false := by
          rw [SourceLine.closesRoutine, hcloser, Option.any_none]
        obtain ⟨hfound, htracks⟩ := h.duplicatesIn ctx line.number (ctx.declaredIn line.code)
        simp only [hread, SourceLine.occurrences_other hname hcloser]
        rw [hfound, ih (htracks.below (scopeBelow_append_other hheader hcloses)) hnext]

/-- **Names declared twice are reported exactly.**  The check lists, in the order of the document,
the declared names that one before them equals in the same scope, each with the line of the first
such one; line numbers in messages count from one. -/
theorem duplicates_eq_repeats (text : Text) (view : WorkspaceView) :
    duplicates (Context.ofText text view) =
      (withEarlier [] (Context.ofText text view).occurrences).filterMap fun entry =>
        entry.2.repeated? (Context.ofText text view) entry.1 :=
  duplicatesFrom_eq_repeats .initial _ (Context.nodup_numbers text view)

end Finding
end KrlWorkbench
