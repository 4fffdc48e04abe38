import KrlWorkbench.Proofs.Scope.ClosedBlocks
import KrlWorkbench.Proofs.Symbol.NameRanges
import KrlWorkbench.Service.CallGraph

/-!
# Calls in and calls out

Calls into a routine are looked for in all lines of a file, and the caller in the lines above a
call; calls out of a routine are looked for in its body.  Where blocks are closed and do not nest,
both searches come to the same calls: those of a name in the body of the caller
(`mem_outgoing_iff`), of which the search for calls into a routine leaves some out
(`mem_incoming_iff`).  What it leaves out is told by `CallSite.isHeard`: names behind `$`, `#` or a
point, and names in a line that becomes a header when its strings are blanked out.
-/

namespace KrlWorkbench

open List Code Routine ScopeMark SymbolTable Text

variable {text : Text} {ranges : List Range} {r : Routine} {view : WorkspaceView}

namespace CallGraph

/-! ## Grouping -/

section Grouping

variable {κ : Type} [DecidableEq κ] {key key' : κ} {item : CallItem} {range : Range}
  {calls : List (κ × CallItem × Range)} {edges : List (κ × CallEdge)}

/-- The places of the calls with a key. -/
def rangesOf (key : κ) (calls : List (κ × CallItem × Range)) : List Range :=
  (calls.filter fun call => call.1 = key).map (·.2.2)

lemma rangesOf_append (key : κ) (calls calls' : List (κ × CallItem × Range)) :
    rangesOf key (calls ++ calls') = rangesOf key calls ++ rangesOf key calls' := by
  simp [rangesOf]

lemma rangesOf_eq_nil (h : ∀ call ∈ calls, call.1 ≠ key) : rangesOf key calls = [] := by
  simpa [rangesOf, filter_eq_nil_iff] using h

/-- The edges that calls are grouped to, with their keys. -/
def edgesOf (calls : List (κ × CallItem × Range)) : List (κ × CallEdge) :=
  calls.foldl (fun edges call => add call.1 call.2.1 call.2.2 edges) []

lemma edgesOf_concat (calls : List (κ × CallItem × Range)) (call : κ × CallItem × Range) :
    edgesOf (calls ++ [call]) = add call.1 call.2.1 call.2.2 (edgesOf calls) := by
  rw [edgesOf, foldl_append]
  rfl

/-- A call changes the edge with its key only, which keeps its item. -/
lemma lookup_add :
    (add key item range edges).lookup key' =
      if key' = key then
        some ⟨((edges.lookup key).map (·.item)).getD item,
          ((edges.lookup key).map (·.ranges)).getD [] ++ [range]⟩
      else edges.lookup key' := by
  have hother : ∀ {k : κ}, ¬key' = k → (key' == k) = false := fun h => by simpa using h
  induction edges with
  | nil =>
    by_cases h : key' = key
    · simp [add, h]
    · simp [add, lookup_cons, h, hother h]
  | cons entry edges ih =>
    obtain ⟨k, edge⟩ := entry
    rw [add]
    by_cases hk : k = key
    · subst hk
      by_cases h : key' = k
      · simp [h]
      · simp [lookup_cons, h, hother h]
    · have hkey : (key == k) = false := by simpa using Ne.symm hk
      rw [if_neg hk, lookup_cons, ih, lookup_cons, hkey, lookup_cons]
      by_cases h : key' = key
      · simp [h, hkey]
      · simp [h]

lemma map_fst_add :
    (add key item range edges).map (·.1) =
      if key ∈ edges.map (·.1) then edges.map (·.1) else edges.map (·.1) ++ [key] := by
  induction edges with
  | nil => simp [add]
  | cons entry edges ih =>
    obtain ⟨k, edge⟩ := entry
    rw [add]
    by_cases hk : k = key
    · simp [hk]
    · rw [if_neg hk, map_cons, ih]
      by_cases hmem : key ∈ edges.map (·.1)
      · simp [hmem, Ne.symm hk]
      · simp [hmem, Ne.symm hk]

lemma nodup_keys_edgesOf (calls : List (κ × CallItem × Range)) :
    ((edgesOf calls).map (·.1)).Nodup := by
  induction calls using List.reverseRecOn with
  | nil => exact nodup_nil
  | append_singleton calls call ih =>
    rw [edgesOf_concat, map_fst_add]
    split
    case isTrue => exact ih
    case isFalse hnew =>
      rw [nodup_append]
      refine ⟨ih, by simp, ?_⟩
      rintro k hk k' hk' rfl
      exact hnew (mem_singleton.mp hk' ▸ hk)

/-- The edge of a key has the item of its first call and the places of all. -/
lemma lookup_edgesOf (calls : List (κ × CallItem × Range)) (key : κ) :
    (edgesOf calls).lookup key =
      (calls.find? fun call => call.1 = key).map fun call => ⟨call.2.1, rangesOf key calls⟩ := by
  induction calls using List.reverseRecOn with
  | nil => rfl
  | append_singleton calls call ih =>
    rw [edgesOf_concat, lookup_add, find?_append]
    by_cases h : key = call.1
    · subst h
      have hranges : rangesOf call.1 [call] = [call.2.2] := by simp [rangesOf]
      rw [if_pos rfl, ih, rangesOf_append, hranges]
      cases hfind : calls.find? fun c => c.1 = call.1 with
      | some first => simp
      | none =>
        have hnone : rangesOf call.1 calls = [] := rangesOf_eq_nil (by simpa using hfind)
        simp [hnone]
    · have hranges : rangesOf key [call] = [] := by simp [rangesOf, Ne.symm h]
      rw [if_neg h, ih, rangesOf_append, hranges]
      simp [Ne.symm h]

lemma lookup_eq_some_iff (hnodup : (edges.map (·.1)).Nodup) {edge : CallEdge} :
    edges.lookup key = some edge ↔ (key, edge) ∈ edges := by
  induction edges with
  | nil => simp
  | cons entry edges ih =>
    rw [map_cons, nodup_cons] at hnodup
    rw [lookup_cons, mem_cons]
    by_cases h : key = entry.1
    · subst h
      have hnot : (entry.1, edge) ∉ edges := fun hmem =>
        hnodup.1 (mem_map.mpr ⟨_, hmem, rfl⟩)
      simp [hnot, Prod.ext_iff, eq_comm]
    · have hbeq : (key == entry.1) = false := by simpa using h
      rw [hbeq, ih hnodup.2]
      simp [Prod.ext_iff, h]

/-- **An edge of an item** has the places of all calls with its key, if the item tells the key. -/
lemma mem_group_iff (hitem : ∀ call ∈ calls, call.2.1 = item ↔ call.1 = key) :
    ⟨item, ranges⟩ ∈ group calls ↔ ranges = rangesOf key calls ∧ ranges ≠ [] := by
  -- Keys are distinct, so an edge is found under its key.
  have hgroup : ⟨item, ranges⟩ ∈ group calls ↔
      ∃ k, (edgesOf calls).lookup k = some ⟨item, ranges⟩ := by
    simp only [lookup_eq_some_iff (nodup_keys_edgesOf calls)]
    refine mem_map.trans ⟨?_, ?_⟩
    · rintro ⟨entry, hmem, hedge⟩
      exact ⟨entry.1, hedge ▸ hmem⟩
    · rintro ⟨k, hmem⟩
      exact ⟨_, hmem, rfl⟩
  rw [hgroup]
  simp only [lookup_edgesOf, Option.map_eq_some_iff]
  constructor
  · rintro ⟨k, call, hfind, hedge⟩
    obtain ⟨rfl, rfl⟩ := CallEdge.mk.inj hedge
    have hmem := mem_of_find?_eq_some hfind
    obtain rfl : call.1 = k := by simpa using find?_some hfind
    rw [(hitem call hmem).mp rfl]
    refine ⟨rfl, ne_nil_of_mem (a := call.2.2) ?_⟩
    rw [rangesOf, mem_map]
    exact ⟨call, by simpa using ⟨hmem, (hitem call hmem).mp rfl⟩, rfl⟩
  · rintro ⟨rfl, hne⟩
    obtain ⟨range, hrange⟩ := exists_mem_of_ne_nil _ hne
    obtain ⟨call, hcall, -⟩ := mem_map.mp hrange
    have hsome : (calls.find? fun call => call.1 = key).isSome = true := by
      rw [find?_isSome]
      exact ⟨call, (mem_filter.mp hcall).1, (mem_filter.mp hcall).2⟩
    obtain ⟨first, hfirst⟩ := Option.isSome_iff_exists.mp hsome
    have hkey : first.1 = key := by simpa using find?_some hfirst
    exact ⟨key, first, hfirst, by rw [(hitem first (mem_of_find?_eq_some hfirst)).mpr hkey]⟩

end Grouping

/-! ## Places of calls -/

end CallGraph

/-- A name before an opening parenthesis, with its line. -/
structure CallSite where
  line : Text
  number : Nat
  callee : Capture

namespace CallSite

/-- The range of the name. -/
def range (text : Text) (site : CallSite) : Range :=
  text.span site.number site.callee.start (byteLength site.callee.text)

/-- Whether the call counts among those into a routine: the line is no header once its strings are
blanked out, and the name is no system variable, enumeration value or member. -/
def isHeard (text : Text) (site : CallSite) : Bool :=
  (ofHeader? text (clean site.line) site.number).isNone &&
    !(takeBytes site.callee.start (clean site.line)).getLast?.any fun c =>
      c == '$' || c == '#' || c == '.'

/-- The calls of a name in numbered lines. -/
def named (name : Text) (lines : List (Text × Nat)) : List CallSite :=
  lines.flatMap fun l =>
    ((CallGraph.callees (clean l.1)).filter fun callee => sameName callee.text name).map
      fun callee => ⟨l.1, l.2, callee⟩

lemma named_append (name : Text) (lines lines' : List (Text × Nat)) :
    named name (lines ++ lines') = named name lines ++ named name lines' := by
  rw [named, flatMap_append]
  rfl

end CallSite

namespace CallGraph

open CallSite

/-- What a call of a name by a routine of a file is grouped under. -/
def callFrom (file : SourceFile) (caller : Routine) (site : CallSite) :
    (Uri × Nat) × CallItem × Range :=
  ((file.uri, caller.headerLine), .ofRoutine file.uri caller, site.range file.text)

variable {file : SourceFile} {name text : Text} {above lines : List (Text × Nat)}

lemma callsInLine_of_none (h : headerAbove? file.text above = none) (l : Text × Nat) :
    callsInLine file name above l.1 l.2 = [] := by
  simp only [callsInLine, h]
  split
  case isTrue => rfl
  case isFalse => split <;> rfl

lemma callsInLine_of_some {caller : Routine} (h : headerAbove? file.text above = some caller)
    (l : Text × Nat) :
    callsInLine file name above l.1 l.2 =
      ((named name [l]).filter (isHeard file.text)).map (callFrom file caller) := by
  have hsites : (named name [l]).filter (isHeard file.text) =
      if (ofHeader? file.text (clean l.1) l.2).isSome then []
      else ((callees (clean l.1)).filter fun callee => sameName callee.text name &&
        !(takeBytes callee.start (clean l.1)).getLast?.any fun c =>
          c == '$' || c == '#' || c == '.').map fun callee => ⟨l.1, l.2, callee⟩ := by
    rw [named, flatMap_singleton, filter_map, filter_filter]
    cases hheader : ofHeader? file.text (clean l.1) l.2 with
    | some r => simp [isHeard, hheader]
    | none => simp [isHeard, hheader, Bool.and_comm]
  rw [hsites]
  simp only [callsInLine, h]
  split
  case isTrue => rfl
  case isFalse =>
    rw [map_map]
    split
    case isTrue hnone => rw [List.isEmpty_iff.mp hnone, map_nil]
    case isFalse => rfl

/-- The header above a place stands in a line above it. -/
lemma exists_of_headerAbove? (h : headerAbove? text above = some r) :
    ∃ l ∈ above, ofHeader? text (codePart l.1) l.2 = some r := by
  induction above with
  | nil => simp [headerAbove?] at h
  | cons l above ih =>
    simp only [headerAbove?] at h
    split at h
    case h_1 r' hr' =>
      obtain rfl := Option.some.inj h
      exact ⟨l, mem_cons_self, hr'⟩
    case h_2 =>
      split_ifs at h
      obtain ⟨l', hl', hr⟩ := ih h
      exact ⟨l', mem_cons_of_mem _ hl', hr⟩

/-- A closer stands in the way of the headers above it. -/
lemma headerAbove?_append_closer {l : Text × Nat} (hcloser : ofLine l.1 = .closer)
    (below : List (Text × Nat)) :
    headerAbove? text (below ++ l :: above) = headerAbove? text below := by
  induction below with
  | nil =>
    have hne : ofLine l.1 ≠ .opener := by simp [hcloser]
    obtain ⟨hheader, hcloses⟩ := of_ofLine_ne_opener hne text l.2
    simp [headerAbove?, hheader, hcloses.mpr hcloser]
  | cons first below ih => simp only [cons_append, headerAbove?, ih]

lemma headerAbove?_cons_of_neither {l : Text × Nat} (h : ofLine l.1 = .neither) :
    headerAbove? text (l :: above) = headerAbove? text above := by
  have hne : ofLine l.1 ≠ .opener := by simp [h]
  obtain ⟨hheader, hcloses⟩ := of_ofLine_ne_opener hne text l.2
  have hopen : ¬LineRule.scopeCloser.holds (codePart l.1) = true := by
    rw [hcloses, h]
    simp
  simp [headerAbove?, hheader, hopen]

lemma callsInLines_append (lines lines' : List (Text × Nat)) :
    callsInLines file name above (lines ++ lines') =
      callsInLines file name above lines ++
        callsInLines file name (lines.reverse ++ above) lines' := by
  induction lines generalizing above with
  | nil => rfl
  | cons l lines ih => simp [callsInLines, ih]

/-- The calls in plain lines below a header are calls from its routine. -/
lemma callsInLines_plain (name : Text) {caller : Routine}
    (hcaller : headerAbove? file.text above = some caller)
    (hplain : ∀ l ∈ lines, ofLine l.1 = .neither) :
    callsInLines file name above lines =
        ((named name lines).filter (isHeard file.text)).map (callFrom file caller) ∧
      headerAbove? file.text (lines.reverse ++ above) = some caller := by
  induction lines generalizing above with
  | nil => exact ⟨rfl, hcaller⟩
  | cons l lines ih =>
    have hl : headerAbove? file.text (l :: above) = some caller := by
      rw [headerAbove?_cons_of_neither (hplain l mem_cons_self), hcaller]
    obtain ⟨hcalls, habove⟩ := ih hl (forall_mem_cons.mp hplain).2
    constructor
    · rw [callsInLines, callsInLine_of_some hcaller, hcalls, ← map_append,
        ← filter_append, ← named_append]
      rfl
    · rw [reverse_cons, append_assoc]
      exact habove

/-- Who calls in a line is the header above it. -/
lemma exists_of_mem_callsInLines {call : (Uri × Nat) × CallItem × Range}
    (h : call ∈ callsInLines file name above lines) :
    ∃ front l back caller site, lines = front ++ l :: back ∧
      headerAbove? file.text (front.reverse ++ above) = some caller ∧
      call = callFrom file caller site := by
  induction lines generalizing above with
  | nil => simp [callsInLines] at h
  | cons l lines ih =>
    rw [callsInLines, mem_append] at h
    rcases h with h | h
    · cases hcaller : headerAbove? file.text above with
      | none => simp [callsInLine_of_none hcaller] at h
      | some caller =>
        rw [callsInLine_of_some hcaller] at h
        obtain ⟨site, -, rfl⟩ := mem_map.mp h
        exact ⟨[], l, lines, caller, site, rfl, hcaller, rfl⟩
    · obtain ⟨front, l', back, caller, site, rfl, hcaller, rfl⟩ := ih h
      exact ⟨l :: front, l', back, caller, site, rfl, by simpa using hcaller, rfl⟩

end CallGraph

/-! ## The body of a routine -/

lemma Routine.headerLine_ofHeader? {code : Text} {line : Nat}
    (h : ofHeader? text code line = some r) : r.headerLine = line := by
  obtain ⟨_, _, _, _, -, rfl⟩ := exists_ofParts h
  rfl

/-- The lines behind the header of a routine up to the end of its window. -/
def Routine.body (text : Text) (r : Routine) : List (Text × Nat) :=
  let stop := ((Window.around? text.lines r.headerLine).map (·.stop)).getD (text.lines.length - 1)
  (text.lines.zipIdx.take (stop + 1)).drop (r.headerLine + 1)

lemma SymbolTable.exists_header (h : r ∈ (collect text).routines) :
    ∃ line, text.lines[r.headerLine]? = some line ∧
      ofHeader? text (codePart line) r.headerLine = some r := by
  rcases mem_of_mem_foldl_addFirst h with h | h
  · obtain ⟨⟨number, code⟩, hcode, hr⟩ := mem_filterMap.mp h
    have hline := getElem?_of_mem_codeLines hcode
    rw [getElem?_map, Option.map_eq_some_iff] at hline
    obtain ⟨line, hline, rfl⟩ := hline
    rw [headerLine_ofHeader? hr]
    exact ⟨line, hline, hr⟩
  · simp at h

/-- **The body of a routine** is plain up to its closer, if blocks are closed and do not nest. -/
lemma Routine.exists_body
    (hturns : takeTurns false (text.lines.map ofLine) = true) {line : Text}
    (hline : text.lines[r.headerLine]? = some line)
    (hr : ofHeader? text (codePart line) r.headerLine = some r) :
    ∃ front plain closer rest,
      text.lines.zipIdx = front ++ (line, r.headerLine) :: (plain ++ closer :: rest) ∧
      r.body text = plain ++ [closer] ∧ (∀ l ∈ plain, ofLine l.1 = .neither) ∧
      ofLine closer.1 = .closer ∧ (∀ l ∈ front, l.2 < r.headerLine) ∧
      ∀ l ∈ rest, r.headerLine < l.2 := by
  have hopener := ofLine_eq_opener.mpr (holds_scopeOpener_of_ofHeader? hr)
  obtain ⟨plain, closer, below, hdrop, hplain, hcloser, hwindow⟩ :=
    Window.around?_of_takeTurns hturns hline hopener
  obtain ⟨hlt, rfl⟩ := List.getElem?_eq_some_iff.mp hline
  have hfront : (text.lines.take r.headerLine).length = r.headerLine :=
    length_take_of_le hlt.le
  have hlines : text.lines.zipIdx = (text.lines.take r.headerLine).zipIdx ++
      (text.lines[r.headerLine], r.headerLine) :: (plain.zipIdx (r.headerLine + 1) ++
        (closer, r.headerLine + 1 + plain.length) ::
          below.zipIdx (r.headerLine + 1 + plain.length + 1)) := by
    conv_lhs => rw [← take_append_drop r.headerLine text.lines, ← getElem_cons_drop hlt, hdrop]
    rw [zipIdx_append, hfront, zipIdx_cons, zipIdx_append, zipIdx_cons]
    simp
  refine ⟨_, _, _, _, hlines, ?_, ?_, hcloser, ?_, ?_⟩
  · -- The window takes the lines up to the closer, and the header goes with what is above it.
    have hcut : text.lines.zipIdx = ((text.lines.take r.headerLine).zipIdx ++
        [(text.lines[r.headerLine], r.headerLine)] ++ (plain.zipIdx (r.headerLine + 1) ++
          [(closer, r.headerLine + 1 + plain.length)])) ++
        below.zipIdx (r.headerLine + 1 + plain.length + 1) := by
      rw [hlines]
      simp
    rw [body, hwindow, hcut, Option.map_some, Option.getD_some, take_left', drop_left']
    · simp [hfront]
    · simp [hfront]
      omega
  · rintro ⟨l, i⟩ hl
    exact hplain l (fst_mem_of_mem_zipIdx hl)
  · rintro ⟨l, i⟩ hl
    have := (mem_zipIdx hl).2.1
    omega
  · rintro ⟨l, i⟩ hl
    have := (mem_zipIdx hl).1
    omega

/-! ## The two searches -/

lemma CallItem.headerLine_eq {uri uri' : Uri} {r' : Routine}
    (h : ofRoutine uri r = ofRoutine uri' r') : r.headerLine = r'.headerLine :=
  congrArg (·.range.start.line) h

namespace CallGraph

open CallSite

lemma rangesOf_map_callFrom (file : SourceFile) (caller : Routine) (sites : List CallSite) :
    rangesOf (file.uri, caller.headerLine) (sites.map (callFrom file caller)) =
      sites.map (CallSite.range file.text) := by
  rw [rangesOf, filter_eq_self.mpr, map_map]
  · rfl
  · intro call hcall
    obtain ⟨site, -, rfl⟩ := mem_map.mp hcall
    simp [callFrom]

variable {text name : Text} {uri : Uri} {f g : Routine}

/-- The calls from a routine are those in its body that are heard. -/
lemma rangesOf_callsInLines
    (hturns : takeTurns false (text.lines.map ofLine) = true)
    (hf : f ∈ (collect text).routines) :
    rangesOf (uri, f.headerLine) (callsInLines ⟨uri, text⟩ name [] text.lines.zipIdx) =
      ((named name (f.body text)).filter (isHeard text)).map (CallSite.range text) := by
  obtain ⟨line, hline, hheader⟩ := exists_header hf
  obtain ⟨front, plain, closer, rest, hlines, hbody, hplain, hcloser, hfront, hrest⟩ :=
    exists_body hturns hline hheader
  -- A call counts for the header above it, so lines under other headers add nothing.
  have hother : ∀ {above lines : List (Text × Nat)}, (∀ first l back caller,
      lines = first ++ l :: back → headerAbove? text (first.reverse ++ above) = some caller →
        caller.headerLine ≠ f.headerLine) →
      rangesOf (uri, f.headerLine) (callsInLines ⟨uri, text⟩ name above lines) = [] := by
    intro above lines hcallers
    refine rangesOf_eq_nil ?_
    intro call hcall hkey
    obtain ⟨first, l, back, caller, site, hsplit, hcaller, rfl⟩ := exists_of_mem_callsInLines hcall
    exact hcallers first l back caller hsplit hcaller (congrArg Prod.snd hkey)
  have habove : rangesOf (uri, f.headerLine)
      (callsInLines ⟨uri, text⟩ name [] (front ++ [(line, f.headerLine)])) = [] := by
    refine hother ?_
    intro first l back caller hsplit hcaller
    obtain ⟨l', hl', hr⟩ := exists_of_headerAbove? hcaller
    have hdropped := congrArg List.dropLast hsplit
    rw [dropLast_concat, dropLast_append_of_ne_nil (cons_ne_nil _ _)] at hdropped
    have hmem : l' ∈ front := by
      rw [hdropped]
      exact mem_append_left _ (by simpa using hl')
    rw [headerLine_ofHeader? hr]
    exact (hfront l' hmem).ne
  have hbelow : ∀ above, rangesOf (uri, f.headerLine)
      (callsInLines ⟨uri, text⟩ name (closer :: above) rest) = [] := by
    intro above
    refine hother ?_
    rintro first l back caller rfl hcaller
    rw [headerAbove?_append_closer hcloser] at hcaller
    obtain ⟨l', hl', hr⟩ := exists_of_headerAbove? hcaller
    rw [headerLine_ofHeader? hr]
    exact (hrest l' (mem_append_left _ (mem_reverse.mp hl'))).ne'
  -- From its header to its closer the routine is the caller of every call.
  have hcaller : headerAbove? text ((front ++ [(line, f.headerLine)]).reverse ++ []) = some f := by
    simp [headerAbove?, hheader]
  obtain ⟨hcalls, hend⟩ := @callsInLines_plain ⟨uri, text⟩ _ _ name f hcaller hplain
  have hlast : callsInLines ⟨uri, text⟩ name
      (plain.reverse ++ ((front ++ [(line, f.headerLine)]).reverse ++ [])) [closer] =
        ((named name [closer]).filter (isHeard text)).map (callFrom ⟨uri, text⟩ f) := by
    rw [callsInLines, callsInLine_of_some hend, callsInLines, append_nil]
  have hsplit : text.lines.zipIdx =
      (front ++ [(line, f.headerLine)]) ++ (plain ++ ([closer] ++ rest)) := by
    rw [hlines]
    simp
  rw [hsplit, callsInLines_append, rangesOf_append, habove, nil_append, callsInLines_append,
    callsInLines_append, hcalls, hlast, rangesOf_append, rangesOf_append, reverse_singleton,
    singleton_append, hbelow, append_nil, ← rangesOf_append, ← map_append,
    ← filter_append, ← named_append, ← hbody]
  exact rangesOf_map_callFrom ⟨uri, text⟩ f _

/-- **The calls from a routine**, as they are found by looking for calls into another. -/
lemma mem_incoming_iff (hturns : takeTurns false (text.lines.map ofLine) = true)
    (hf : f ∈ (collect text).routines) :
    ⟨.ofRoutine uri f, ranges⟩ ∈ incoming [⟨uri, text⟩] name ↔
      ranges = ((named name (f.body text)).filter (isHeard text)).map (CallSite.range text) ∧
        ranges ≠ [] := by
  rw [incoming, flatMap_singleton, ← rangesOf_callsInLines hturns hf]
  refine mem_group_iff ?_
  intro call hcall
  obtain ⟨front, l, back, caller, site, hsplit, hcaller, rfl⟩ := exists_of_mem_callsInLines hcall
  constructor
  · intro hitem
    exact congrArg (uri, ·) (CallItem.headerLine_eq hitem)
  · intro hkey
    -- Both headers stand in one line.
    have hnumber : caller.headerLine = f.headerLine := congrArg Prod.snd hkey
    obtain ⟨l', hl', hr⟩ := exists_of_headerAbove? hcaller
    have hmem : l' ∈ text.lines.zipIdx := by
      rw [hsplit]
      exact mem_append_left _ (by simpa using hl')
    have hline := mk_mem_zipIdx_iff_getElem?.mp hmem
    obtain ⟨line, hline', hheader⟩ := exists_header hf
    rw [headerLine_ofHeader? hr] at hnumber
    rw [hnumber, hline', Option.some.injEq] at hline
    rw [hnumber, ← hline, hheader, Option.some.injEq] at hr
    rw [callFrom, hr]

/-- What a name in the body of a routine is grouped under, if it counts as a call. -/
def callTo? (text : Text) (uri : Uri) (name : Text) (view : WorkspaceView) (site : CallSite) :
    Option (Text × CallItem × Range) :=
  if Keyword.isKeyword site.callee.text || sameName site.callee.text name then none
  else (target? (collect text) uri view site.callee.text).map fun item =>
    (upper site.callee.text, item, site.range text)

/-- All names in numbered lines that stand before an opening parenthesis. -/
def allSites (lines : List (Text × Nat)) : List CallSite :=
  lines.flatMap fun l => (callees (clean l.1)).map fun callee => ⟨l.1, l.2, callee⟩

lemma outgoing_eq (h : (collect text).routine? name = some f) :
    outgoing text uri name view =
      group ((allSites (f.body text)).filterMap (callTo? text uri name view)) := by
  have hsites : (allSites (f.body text)).filterMap (callTo? text uri name view) =
      (f.body text).flatMap fun l => (callees (clean l.1)).filterMap fun callee =>
        callTo? text uri name view ⟨l.1, l.2, callee⟩ := by
    rw [allSites, filterMap_flatMap]
    congr 1
    funext l
    rw [filterMap_map]
    rfl
  rw [hsites, outgoing, body]
  simp only [h]
  cases Window.around? text.lines f.headerLine <;> rfl

lemma filter_allSites (lines : List (Text × Nat)) :
    (allSites lines).filter (fun site => sameName site.callee.text name) = named name lines := by
  rw [allSites, named, filter_flatMap]
  congr 1
  funext l
  rw [filter_map]
  rfl

lemma routine?_eq_some {r : Routine} (hr : r ∈ (collect text).routines)
    (hname : sameName r.name name = true) : (collect text).routine? name = some r := by
  have hsome : ((collect text).routine? name).isSome = true := by
    rw [routine?, find?_isSome]
    exact ⟨r, hr, hname⟩
  obtain ⟨r', hr'⟩ := Option.isSome_iff_exists.mp hsome
  have hname' : sameName r'.name name = true := by simpa using find?_some hr'
  have hkey : r'.key = r.key := (beq_iff_eq.mp hname').trans (beq_iff_eq.mp hname).symm
  have hnodup : ((collect text).routines.map (·.key)).Nodup :=
    @nodup_foldl_keepFirst _ key _ [] nodup_nil
  rw [hr', inj_on_of_nodup_map hnodup (mem_of_find?_eq_some hr') hr hkey]

lemma sameName_of_target? {table : SymbolTable} {item : CallItem}
    (h : target? table uri view name = some item) : sameName item.name name = true := by
  rcases Option.or_eq_some_iff.mp h with h | ⟨-, h⟩
  all_goals
    obtain ⟨r, hr, rfl⟩ := Option.map_eq_some_iff.mp h
    have hname := find?_some hr
    exact hname

lemma of_callTo? {site : CallSite} {call : Text × CallItem × Range}
    (h : callTo? text uri name view site = some call) :
    call.1 = upper site.callee.text ∧ upper call.2.1.name = upper site.callee.text := by
  rw [callTo?] at h
  split_ifs at h
  obtain ⟨item, hitem, rfl⟩ := Option.map_eq_some_iff.mp h
  exact ⟨rfl, beq_iff_eq.mp (sameName_of_target? hitem)⟩

/-- **The calls of a routine**, as they are found by looking for calls out of another. -/
lemma mem_outgoing_iff (hf : f ∈ (collect text).routines)
    (hg : g ∈ (collect text).routines) (hne : f ≠ g)
    (hkeyword : Keyword.isKeyword g.name = false) :
    ⟨.ofRoutine uri g, ranges⟩ ∈ outgoing text uri f.name view ↔
      ranges = (named g.name (f.body text)).map (CallSite.range text) ∧ ranges ≠ [] := by
  have hself : (collect text).routine? f.name = some f :=
    routine?_eq_some hf (beq_self_eq_true _)
  -- A name is grouped under the key of `g` if and only if it is the name of `g`.
  have hcall : ∀ site : CallSite, sameName site.callee.text g.name = true →
      callTo? text uri f.name view site =
        some (upper g.name, .ofRoutine uri g, site.range text) := by
    intro site hname
    have hupper : upper site.callee.text = upper g.name := beq_iff_eq.mp hname
    have hfound := @routine?_eq_some text site.callee.text g hg (by simp [sameName, hupper])
    have hother : sameName site.callee.text f.name = false := by
      by_contra hsame
      rw [Bool.not_eq_false, sameName, hupper, beq_iff_eq] at hsame
      have hfound' := @routine?_eq_some text f.name g hg (by simp [sameName, hsame])
      exact hne (Option.some.inj (hself.symm.trans hfound'))
    have hword : Keyword.isKeyword site.callee.text = false := by
      rw [← hkeyword, Keyword.isKeyword, Keyword.isKeyword, hupper]
    rw [callTo?, hword, hother, target?, hfound, hupper]
    rfl
  have hplaces : rangesOf (upper g.name)
      ((allSites (f.body text)).filterMap (callTo? text uri f.name view)) =
        (named g.name (f.body text)).map (CallSite.range text) := by
    rw [rangesOf, filter_filterMap, map_filterMap, ← filter_allSites,
      ← filterMap_eq_filter, map_filterMap]
    refine filterMap_congr fun site _ => ?_
    by_cases hname : sameName site.callee.text g.name = true
    · simp [hcall site hname, hname]
    · have hguard : Option.guard (fun site : CallSite => sameName site.callee.text g.name) site =
          none := by simp [Option.guard, hname]
      rw [hguard, Option.map_none, Option.map_eq_none_iff, Option.filter_eq_none_iff]
      intro call hcall
      have hkey : call.1 ≠ upper g.name := fun hkey =>
        hname (beq_iff_eq.mpr ((of_callTo? hcall).1.symm.trans hkey))
      simpa using hkey
  rw [outgoing_eq hself, ← hplaces]
  refine mem_group_iff ?_
  intro call hmem
  obtain ⟨site, -, hsite⟩ := mem_filterMap.mp hmem
  obtain ⟨hkey, hname⟩ := of_callTo? hsite
  constructor
  · intro hitem
    rw [hkey, ← hname, hitem]
    rfl
  · intro hg
    rw [hcall site (beq_iff_eq.mpr (hkey.symm.trans hg))] at hsite
    rw [← Option.some.inj hsite]

/-- **Calls in and calls out are converse**, exactly if all calls are heard.  In a document whose
blocks are closed and do not nest, a routine `g` is among the routines that `f` calls if and only if
`f` is among those that call `g`, with the same places of the calls, unless a call of `g` in the
body of `f` is one that the search for calls into `g` passes over. -/
theorem outgoing_iff_incoming_iff_heard (uri : Uri) (view : WorkspaceView)
    (hturns : ScopeMark.takeTurns false (text.lines.map ScopeMark.ofLine) = true)
    (hf : f ∈ (SymbolTable.collect text).routines) (hg : g ∈ (SymbolTable.collect text).routines)
    (hne : f ≠ g) (hkeyword : Keyword.isKeyword g.name = false) :
    (∀ ranges, ⟨.ofRoutine uri g, ranges⟩ ∈ outgoing text uri f.name view ↔
        ⟨.ofRoutine uri f, ranges⟩ ∈ incoming [⟨uri, text⟩] g.name) ↔
      ∀ site ∈ named g.name (f.body text), site.isHeard text = true := by
  simp only [mem_outgoing_iff hf hg hne hkeyword, mem_incoming_iff hturns hf]
  constructor
  · intro h site hsite
    have hplaces : (named g.name (f.body text)).map (CallSite.range text) ≠ [] := by
      simpa using ne_nil_of_mem hsite
    have hsame := congrArg List.length ((h _).mp ⟨rfl, hplaces⟩).1
    rw [length_map, length_map, eq_comm, length_filter_eq_length_iff] at hsame
    exact hsame site hsite
  · intro h ranges
    rw [filter_eq_self.mpr h]

/-- Calls in other letters, in one line, behind a string with a call in it and in the line of the
closer. -/
theorem outgoing_iff_incoming_iff_heard_pick :
    let text : Text :=
      "DEF main()\n  x = \"pick(0)\" + Pick (1) + pick(2)\nEND pick(3)\nDEF PICK(n:IN)\nEND".toList
    let uri : Uri := ⟨"file".toList, some .empty, "/cell.src".toList, []⟩
    let main : Routine := .ofParts text 0 false none ⟨4, "main".toList⟩ []
    let pick : Routine := .ofParts text 3 false none ⟨4, "PICK".toList⟩ "n:IN".toList
    let places : List Range := [⟨⟨1, 18⟩, ⟨1, 22⟩⟩, ⟨⟨1, 29⟩, ⟨1, 33⟩⟩, ⟨⟨2, 4⟩, ⟨2, 8⟩⟩]
    ScopeMark.takeTurns false (text.lines.map ScopeMark.ofLine) = true ∧
      main ∈ (SymbolTable.collect text).routines ∧ pick ∈ (SymbolTable.collect text).routines ∧
      Keyword.isKeyword pick.name = false ∧
      (∀ ranges, ⟨.ofRoutine uri pick, ranges⟩ ∈ outgoing text uri main.name {} ↔
        ⟨.ofRoutine uri main, ranges⟩ ∈ incoming [⟨uri, text⟩] pick.name) ∧
      ⟨.ofRoutine uri main, places⟩ ∈ incoming [⟨uri, text⟩] pick.name := by
  intro text uri main pick places
  have hturns : ScopeMark.takeTurns false (text.lines.map ScopeMark.ofLine) = true := by
    decide +kernel
  have hmain : main ∈ (SymbolTable.collect text).routines := by decide +kernel
  have hpick : pick ∈ (SymbolTable.collect text).routines := by decide +kernel
  have hkeyword : Keyword.isKeyword pick.name = false := by decide +kernel
  have hheard : ((named pick.name (main.body text)).all fun site => site.isHeard text) = true := by
    decide +kernel
  refine ⟨hturns, hmain, hpick, hkeyword, ?_, by decide +kernel⟩
  exact (outgoing_iff_incoming_iff_heard uri {} hturns hmain hpick (by decide +kernel)
    hkeyword).mpr (all_eq_true.mp hheard)

/-- A member of the name of a routine counts as a call out of a routine and not as one into it. -/
theorem outgoing_without_incoming :
    let text : Text := "DEF f()\n  tool.g(1)\nEND\nDEF g(n:IN)\nEND\n".toList
    let uri : Uri := ⟨"file".toList, some .empty, "/ws/a.src".toList, []⟩
    let f : Routine := .ofParts text 0 false none ⟨4, "f".toList⟩ []
    let g : Routine := .ofParts text 3 false none ⟨4, "g".toList⟩ "n:IN".toList
    ScopeMark.takeTurns false (text.lines.map ScopeMark.ofLine) = true ∧
      f ∈ (SymbolTable.collect text).routines ∧ g ∈ (SymbolTable.collect text).routines ∧
      f ≠ g ∧ Keyword.isKeyword g.name = false ∧
      outgoing text uri f.name {} = [⟨.ofRoutine uri g, [⟨⟨1, 7⟩, ⟨1, 8⟩⟩]⟩] ∧
      incoming [⟨uri, text⟩] g.name = [] := by
  decide +kernel

end CallGraph
end KrlWorkbench
