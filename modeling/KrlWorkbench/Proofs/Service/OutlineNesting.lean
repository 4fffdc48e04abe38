import KrlWorkbench.Proofs.Service.LocalDefinition
import KrlWorkbench.Proofs.Symbol.FirstOccurrences
import KrlWorkbench.Proofs.Text.Positions
import KrlWorkbench.Service.Outline

/-!
# The outline is complete and well nested

An outline shows each declaration that has a place exactly once, below the routine or data list
whose lines hold it or else at the top.  Its containers are runs of lines that begin with a header.
They do not overlap, and every header lies in one of them: it begins a container, or it stands
inside one that is still open and counts for nothing.

The containers arise in one walk over the lines.  What the walk has found from a line on
(`Container.Covers`) is shown together for a walk outside of containers and for one with a container
open (`Container.covers_scan`).  The declarations come from a second walk, that of the symbol table,
and only their lines tell where they belong; that none is lost and none shown twice is a fact about
lists that are filtered by conditions which exclude each other (`perm_flatMap_filter`).
-/

namespace KrlWorkbench

open List LineRule OutlineNode SymbolTable Text

variable {text : Text} {e : OutlineEntry}

/-! ## Ranges in runs of lines -/

lemma Position.le_total (p q : Position) : (p.le q || q.le p) = true := by
  rw [Bool.or_eq_true, le_iff, le_iff]
  omega

/-- The range lies inside the other one. -/
def Range.Within (r outer : Range) : Prop :=
  outer.start.le r.start = true ∧ r.start.le r.stop = true ∧ r.stop.le outer.stop = true

/-- The range of a run of lines: from the start of the first one to the end of the last one. -/
def Window.Ranges (w : Window) (text : Text) (r : Range) : Prop :=
  r.start = ⟨w.start, 0⟩ ∧
    ∃ line, text.lines[w.stop]? = some line ∧ r.stop = ⟨w.stop, unitLength line⟩

lemma Range.Holds.within {piece : Text} {r outer : Range} {w : Window} (hr : r.Holds text piece)
    (hw : w.Ranges text outer) (hline : w.contains r.start.line = true) : r.Within outer := by
  obtain ⟨a, b, hstart, hstop, hle, hsame, -⟩ := hr
  obtain ⟨hfirst, last, hlast, hend⟩ := hw
  obtain ⟨s, u, v, hu, hs, hcharacter, rfl⟩ := exists_of_offset hstart
  obtain ⟨s', u', v', hu', hs', hcharacter', rfl⟩ := exists_of_offset hstop
  rw [← hsame] at hu' hs'
  obtain rfl : s = s' := Option.some.inj (hs.symm.trans hs')
  have hpieces : u ++ v = u' ++ v' := Option.some.inj (hu.symm.trans hu')
  have hisPrefix : u <+: u' := by
    have htake := takeBytes_isPrefix_of_le (Nat.le_of_add_le_add_left hle) (u' ++ v')
    rwa [takeBytes_append, ← hpieces, takeBytes_append] at htake
  have hunits := unitLength_le_of_isPrefix hisPrefix
  simp only [Window.contains, Bool.and_eq_true, decide_eq_true_eq] at hline
  refine ⟨?_, ?_, ?_⟩
  · rw [Position.le_iff, hfirst]
    rcases Nat.lt_or_eq_of_le hline.1 with hlt | heq
    · exact .inl hlt
    · exact .inr ⟨heq, Nat.zero_le _⟩
  · exact Position.le_iff.mpr (.inr ⟨hsame, by omega⟩)
  · rw [Position.le_iff, hend, ← hsame]
    rcases Nat.lt_or_eq_of_le hline.2 with hlt | heq
    · exact .inl hlt
    · refine .inr ⟨heq, ?_⟩
      rw [← heq, hu', Option.some.injEq] at hlast
      rw [hcharacter', ← hlast]
      simp

/-! ## Containers -/

/-- Whether a line heads a routine or a data list. -/
def isHeader (line : Text) : Bool :=
  Routine.isHeader (Code.codePart line) || dataListHeader.holds (Code.codePart line)

/-- Whether a line ends a routine or a data list. -/
def isScopeCloser (line : Text) : Bool :=
  scopeCloser.holds (Code.codePart line)

namespace Container

/-- What is known of a container while its lines are read: it began with a header, it is named in
that line, and its range is that of its lines. -/
structure Runs (text : Text) (c : Container) : Prop where
  header : ∃ line, text.lines[c.window.start]? = some line ∧ isHeader line = true
  ordered : c.window.start ≤ c.window.stop
  ranges : c.window.Ranges text c.entry.range
  named : c.entry.selection.Holds text c.entry.name
  selected : c.entry.selection.start.line = c.window.start
  kind : c.entry.kind = .routine ∨ c.entry.kind = .dataList

/-- No line between the two ends a container. -/
def Unclosed (text : Text) (first last : Nat) : Prop :=
  ∀ i line, first < i → i < last → text.lines[i]? = some line → isScopeCloser line = false

/-- The container is open in front of a line. -/
structure IsOpen (text : Text) (number : Nat) (c : Container) : Prop where
  runs : c.Runs text
  next : c.window.stop + 1 = number
  unclosed : Unclosed text c.window.start number

/-- The container runs to the first line that ends it, or to the last line of the text. -/
structure IsWhole (text : Text) (c : Container) : Prop where
  runs : c.Runs text
  unclosed : Unclosed text c.window.start c.window.stop
  ends : c.window.start < c.window.stop ∧
      (∃ line, text.lines[c.window.stop]? = some line ∧ isScopeCloser line = true) ∨
    c.window.stop + 1 = text.lines.length

/-- What a walk from line `first` on finds: whole containers, apart from each other, such that every
header from there on lies in one of them. -/
structure Covers (text : Text) (first : Nat) (found : List Container) : Prop where
  whole : ∀ c ∈ found, c.IsWhole text
  le_start : ∀ c ∈ found, first ≤ c.window.start
  disjoint : found.Pairwise fun a b => a.window.stop < b.window.start
  covered : ∀ i line, first ≤ i → text.lines[i]? = some line → isHeader line = true →
    ∃ c ∈ found, c.window.contains i = true

variable {text line : Text} {number : Nat} {c : Container}

lemma isSome_ofLine? (text : Text) (number : Nat) (line : Text) :
    (ofLine? text number line).isSome = isHeader line := by
  have hroutine := Routine.isSome_ofHeader? text (Code.codePart line) number
  rw [ofLine?, isHeader, ← hroutine]
  cases Routine.ofHeader? text (Code.codePart line) number with
  | some r => rfl
  | none =>
    rw [holds, Pattern.isIn, ← LineRule.find?]
    cases hlist : dataListHeader.find? (Code.codePart line) with
    | none => rfl
    | some found => simp [isSome_group? (i := 1) rfl hlist]

lemma span_line (h : text.lines[number]? = some line) :
    text.span number 0 (byteLength line) = ⟨⟨number, 0⟩, ⟨number, unitLength line⟩⟩ := by
  rw [span_eq h (by simp), Nat.zero_add, takeBytes_byteLength, takeBytes_zero, unitLength_nil]

section Line

variable (hline : text.lines[number]? = some line)
include hline

lemma isOpen_of_ofLine? (h : ofLine? text number line = some c) :
    c.window.start = number ∧ c.IsOpen text (number + 1) := by
  have hheader : isHeader line = true := by rw [← isSome_ofLine? text number line, h]; rfl
  have hcode : (text.lines.map Code.codePart)[number]? = some (Code.codePart line) := by
    rw [getElem?_map, hline, Option.map_some]
  have hunclosed : Unclosed text number (number + 1) := fun i _ hlt hgt => by omega
  have hranges : Window.Ranges ⟨number, number⟩ text (text.span number 0 (byteLength line)) := by
    rw [span_line hline]
    exact ⟨rfl, line, hline, rfl⟩
  rw [ofLine?] at h
  split at h
  case h_1 r hr =>
    obtain rfl := Option.some.inj h
    obtain ⟨_, _, name, _, hinside, rfl⟩ := Routine.exists_ofParts hr
    exact ⟨rfl, ⟨⟨line, hline, hheader⟩, Nat.le_refl _, hranges, hinside.holds_span hcode,
      line_span hline hinside.stop_le, .inl rfl⟩, rfl, hunclosed⟩
  case h_2 =>
    obtain ⟨name, hname, rfl⟩ := Option.map_eq_some_iff.mp h
    obtain ⟨found, hfound, hname⟩ := Option.bind_eq_some_iff.mp hname
    have hinside := (Pattern.matches_of_find? hfound).inside.group? hname
    exact ⟨rfl, ⟨⟨line, hline, hheader⟩, Nat.le_refl _, hranges, hinside.holds_span hcode,
      line_span hline hinside.stop_le, .inr rfl⟩, rfl, hunclosed⟩

variable (h : c.IsOpen text number)
include h

/-- The next line belongs to the container, whether it ends it or not. -/
lemma IsOpen.runs_upTo : (c.upTo text number line).Runs text := by
  obtain ⟨⟨hheader, hordered, ⟨hstart, -⟩, hnamed, hselected, hkind⟩, hnext, -⟩ := h
  refine ⟨hheader, ?_, ⟨hstart, line, hline, ?_⟩, hnamed, hselected, hkind⟩
  · change c.window.start ≤ number
    omega
  · change (text.span number 0 (byteLength line)).stop = _
    rw [span_line hline]
    rfl

lemma IsOpen.isOpen_upTo (hcloser : isScopeCloser line = false) :
    (c.upTo text number line).IsOpen text (number + 1) := by
  refine ⟨h.runs_upTo hline, rfl, fun i raw hlt hle hraw => ?_⟩
  rcases Nat.lt_or_eq_of_le (Nat.le_of_lt_succ hle) with hlt' | rfl
  · exact h.unclosed i raw hlt hlt' hraw
  · obtain rfl : line = raw := Option.some.inj (hline.symm.trans hraw)
    exact hcloser

lemma IsOpen.isWhole_upTo (hcloser : isScopeCloser line = true) :
    (c.upTo text number line).IsWhole text := by
  refine ⟨h.runs_upTo hline, h.unclosed, .inl ⟨?_, line, hline, hcloser⟩⟩
  change c.window.start < number
  have hordered := h.runs.ordered
  have hnext := h.next
  omega

end Line

/-- A container that is open behind the last line is whole. -/
lemma IsOpen.isWhole_of_end (h : c.IsOpen text number) (hend : text.lines.length ≤ number) :
    c.IsWhole text := by
  obtain ⟨last, hlast, -⟩ := h.runs.ranges.2
  have hlt := (List.getElem?_eq_some_iff.mp hlast).1
  have hnext := h.next
  refine ⟨h.runs, fun i raw hfirst hstop => h.unclosed i raw hfirst (by omega), .inr (by omega)⟩

lemma Covers.of_succ {found : List Container} (h : Covers text (number + 1) found)
    (hline : text.lines[number]? = some line) (hheader : isHeader line = false) :
    Covers text number found where
  whole := h.whole
  le_start c hc := Nat.le_of_succ_le (h.le_start c hc)
  disjoint := h.disjoint
  covered i raw hi hraw hraw' := by
    rcases Nat.lt_or_eq_of_le hi with hlt | rfl
    · exact h.covered i raw hlt hraw hraw'
    · obtain rfl : line = raw := Option.some.inj (hline.symm.trans hraw)
      rw [hheader] at hraw'
      cases hraw'

lemma Covers.cons {found : List Container} (h : Covers text (c.window.stop + 1) found)
    (hc : c.IsWhole text) : Covers text c.window.start (c :: found) where
  whole := forall_mem_cons.mpr ⟨hc, h.whole⟩
  le_start := by
    refine forall_mem_cons.mpr ⟨Nat.le_refl _, fun c' hc' => ?_⟩
    have hle := h.le_start c' hc'
    have hordered := hc.runs.ordered
    omega
  disjoint := pairwise_cons.mpr ⟨fun c' hc' => h.le_start c' hc', h.disjoint⟩
  covered i raw hi hraw hheader := by
    by_cases hstop : i ≤ c.window.stop
    · exact ⟨c, mem_cons_self, by simp [Window.contains, hi, hstop]⟩
    · obtain ⟨c', hc', hin⟩ := h.covered i raw (by omega) hraw hheader
      exact ⟨c', mem_cons_of_mem _ hc', hin⟩

/-- **The walk** over the lines from `number` on covers all headers there, and with a container open
all from its header on. -/
lemma covers_scan (text : Text) (lines : List Text) (number : Nat)
    (hlines : text.lines.drop number = lines) :
    Covers text number (scan text number none lines) ∧
      ∀ c : Container, c.IsOpen text number →
        Covers text c.window.start (scan text number (some c) lines) := by
  -- On the lines, for both states of the walk at once.
  induction lines generalizing number with
  | nil =>
    have hend : text.lines.length ≤ number := List.drop_eq_nil_iff.mp hlines
    have hnone : ∀ first, text.lines.length ≤ first → Covers text first [] := by
      intro first hfirst
      refine ⟨by simp, by simp, .nil, fun i raw hi hraw => ?_⟩
      have hlt := (List.getElem?_eq_some_iff.mp hraw).1
      omega
    refine ⟨hnone number hend, fun c hc => ?_⟩
    have hnext := hc.next
    exact (hnone (c.window.stop + 1) (by omega)).cons (hc.isWhole_of_end hend)
  | cons line lines ih =>
    have hline : text.lines[number]? = some line := by
      rw [← head?_drop, hlines, head?_cons]
    have hrest : text.lines.drop (number + 1) = lines := by
      rw [← tail_drop, hlines, tail_cons]
    obtain ⟨ihnone, ihsome⟩ := ih (number + 1) hrest
    constructor
    · rw [scan]
      cases hopen : ofLine? text number line with
      | none =>
        refine ihnone.of_succ hline ?_
        rw [← isSome_ofLine? text number line, hopen]
        rfl
      | some c =>
        obtain ⟨hstart, hc⟩ := isOpen_of_ofLine? hline hopen
        have hcovers := ihsome c hc
        rwa [hstart] at hcovers
    · intro c hc
      rw [scan]
      split
      case isTrue hcloser => exact ihnone.cons (hc.isWhole_upTo hline hcloser)
      case isFalse hcloser =>
        exact ihsome _ (hc.isOpen_upTo hline (Bool.eq_false_iff.mpr hcloser))

lemma covers_lines (text : Text) : Covers text 0 (scan text 0 none text.lines) :=
  (covers_scan text text.lines 0 rfl).1

end Container

/-! ## Declarations -/

/-- Conditions that exclude each other share out a list, with what meets none of them. -/
lemma perm_flatMap_filter {α β : Type} (p : β → α → Bool) {conditions : List β}
    (h : conditions.Pairwise fun b b' => ∀ a, p b a = true → p b' a = false) (items : List α) :
    ((conditions.flatMap fun b => items.filter (p b)) ++
      items.filter fun a => !conditions.any fun b => p b a).Perm items := by
  induction conditions generalizing items with
  | nil => simp
  | cons b conditions ih =>
    obtain ⟨hb, hrest⟩ := pairwise_cons.mp h
    have hothers : ∀ b' ∈ conditions, (items.filter fun a => !p b a).filter (p b') =
        items.filter (p b') := by
      intro b' hb'
      rw [filter_filter]
      refine filter_congr fun a _ => ?_
      cases ha : p b a with
      | true => simp [hb b' hb' a ha]
      | false => simp
    have hperm := ih hrest (items.filter fun a => !p b a)
    rw [flatMap_congr hothers, filter_filter] at hperm
    have hnone : (fun a => (!conditions.any fun b => p b a) && !p b a) =
        fun a => !(b :: conditions).any fun b => p b a := by
      funext a
      rw [any_cons, Bool.not_or, Bool.and_comm]
    rw [hnone] at hperm
    rw [flatMap_cons, append_assoc]
    exact (hperm.append_left _).trans (List.filter_append_perm (p b) items)

namespace Symbol

/-- The range of the symbol, if it has one, is the place of a name, and the symbol is no routine. -/
structure IsShowable (text : Text) (s : Symbol) : Prop where
  holds : ∀ r, s.range = some r → ∃ name, r.Holds text name
  kind : s.kind ≠ .function

lemma IsShowable.refine {old new : Symbol} (hold : old.IsShowable text)
    (hnew : new.IsShowable text) : (old.refine new).IsShowable text := by
  rw [Symbol.refine]
  split
  case isTrue => exact ⟨hnew.holds, hold.kind⟩
  case isFalse => exact hold

lemma kind_ne_function {code : Text} {types : List Text} {line : Nat} {s : Symbol}
    (h : s ∈ ofLine text types line code) : s.kind ≠ .function := by
  cases fromLine_of_mem h <;> simp

lemma isShowable_of_mem_collect {s : Symbol} (h : s ∈ (collect text).symbols) :
    s.IsShowable text := by
  refine forall_mem_foldl_add (P := IsShowable text) (Q := IsShowable text) (fun _ h => h)
    (fun _ _ hold hnew _ => hold.refine hnew) (fun s hs => ?_) (by simp) s h
  obtain ⟨⟨line, code⟩, hline, hs⟩ := mem_flatMap.mp hs
  exact ⟨fun r hr => ⟨s.name, (placedIn_of_mem_ofLine hs).holds
    (getElem?_of_mem_codeLines hline) hr⟩, kind_ne_function hs⟩

end Symbol

/-! ## The outline -/

/-- Whether a node stands for a routine or a data list. -/
def OutlineNode.isContainer (n : OutlineNode) : Bool :=
  n.entry.kind = .routine || n.entry.kind = .dataList

/-- The lines of a node. -/
def OutlineNode.window (n : OutlineNode) : Window :=
  ⟨n.entry.range.start.line, n.entry.range.stop.line⟩

/-- The declarations that a node shows: those below a container, or the one that it stands for. -/
def OutlineNode.shown (n : OutlineNode) : List OutlineEntry :=
  if n.isContainer then n.children else [n.entry]

/-- A whole container with its name and what is below it in its range. -/
structure OutlineNode.Encloses (text : Text) (n : OutlineNode) : Prop where
  whole : Container.IsWhole text ⟨n.entry, n.window⟩
  selection : n.entry.selection.Within n.entry.range
  children : ∀ e ∈ n.children, e.range.Within n.entry.range

/-- What is to be seen of a declaration that has a place: its name, its type, its kind and the
place. -/
def Symbol.face? (s : Symbol) : Option (Text × Option Text × OutlineKind × Range) :=
  s.range.map fun r => (s.name, s.typeName, .ofSymbol s.kind, r)

/-- What is to be seen of an entry. -/
def OutlineEntry.face (e : OutlineEntry) : Text × Option Text × OutlineKind × Range :=
  (e.name, e.detail, e.kind, e.range)

/-- The nodes show what a text declares, well nested. -/
structure Outline.IsNested (text : Text) (nodes : List OutlineNode) : Prop where
  /-- Each declaration that has a place is shown once, and nothing else is. -/
  shown : ((nodes.flatMap shown).map OutlineEntry.face).Perm
    ((collect text).symbols.filterMap Symbol.face?)
  distinct : ((collect text).symbols.filterMap Symbol.face?).Nodup
  leaf : ∀ n ∈ nodes, n.isContainer = false → n.children = []
  encloses : ∀ n ∈ nodes, n.isContainer = true → n.Encloses text
  /-- A header begins a container or lies inside one. -/
  covered : ∀ i line, text.lines[i]? = some line → isHeader line = true →
    ∃ n ∈ nodes, n.isContainer = true ∧ n.window.contains i = true
  disjoint : (nodes.filter isContainer).Pairwise fun a b =>
    a.window.stop < b.window.start ∨ b.window.stop < a.window.start
  sorted : nodes.Pairwise fun a b => a.entry.range.start.le b.entry.range.start = true

namespace Outline

/-- The containers of a text. -/
def containers (text : Text) : List Container :=
  Container.scan text 0 none text.lines

/-- The node of a container: it and the declarations of its lines. -/
def nodeOf (text : Text) (c : Container) : OutlineNode :=
  ⟨c.entry, (declarations text).filter fun e => c.window.contains e.range.start.line⟩

/-- The declarations outside of containers. -/
def outside (text : Text) : List OutlineEntry :=
  (declarations text).filter fun e =>
    !(containers text).any fun c => c.window.contains e.range.start.line

lemma perm_outline (text : Text) :
    (outline text).Perm
      ((containers text).map (nodeOf text) ++ (outside text).map (OutlineNode.mk · [])) :=
  mergeSort_perm _ _

lemma mem_outline_iff {n : OutlineNode} :
    n ∈ outline text ↔ (∃ c ∈ containers text, nodeOf text c = n) ∨
      ∃ e ∈ outside text, OutlineNode.mk e [] = n := by
  rw [(perm_outline text).mem_iff, mem_append, mem_map, mem_map]

lemma map_face_declarations (text : Text) :
    (declarations text).map OutlineEntry.face = (collect text).symbols.filterMap Symbol.face? := by
  rw [declarations, map_filterMap]
  refine filterMap_congr fun s _ => ?_
  rw [Symbol.face?, Option.map_map]
  rfl

lemma exists_symbol_of_mem_declarations (h : e ∈ declarations text) :
    ∃ s ∈ (collect text).symbols,
      s.range = some e.range ∧ e.kind = .ofSymbol s.kind := by
  obtain ⟨s, hs, he⟩ := mem_filterMap.mp h
  obtain ⟨r, hr, rfl⟩ := Option.map_eq_some_iff.mp he
  exact ⟨s, hs, hr, rfl⟩

lemma isContainer_leaf (h : e ∈ outside text) : (mk e []).isContainer = false := by
  obtain ⟨s, hs, -, hkind⟩ := exists_symbol_of_mem_declarations (mem_of_mem_filter h)
  have hne := (Symbol.isShowable_of_mem_collect hs).kind
  cases hs : s.kind <;> simp_all [isContainer, OutlineKind.ofSymbol]

section Node

variable {text : Text} {c : Container} (h : c.Runs text)
include h

lemma isContainer_nodeOf : (nodeOf text c).isContainer = true := by
  rcases h.kind with hkind | hkind <;> simp [isContainer, nodeOf, hkind]

lemma window_nodeOf : (nodeOf text c).window = c.window := by
  obtain ⟨hstart, line, -, hstop⟩ := h.ranges
  rw [window, nodeOf, hstart, hstop]

end Node

/-- A whole container encloses the declarations of its lines. -/
lemma encloses_nodeOf {c : Container} (h : c.IsWhole text) : (nodeOf text c).Encloses text := by
  have hwindow := window_nodeOf h.runs
  constructor
  case whole => rw [hwindow]; exact h
  case selection =>
    refine h.runs.named.within h.runs.ranges ?_
    rw [h.runs.selected]
    simpa [Window.contains] using h.runs.ordered
  case children =>
    intro e he
    obtain ⟨he, hin⟩ := mem_filter.mp he
    obtain ⟨s, hs, hr, -⟩ := exists_symbol_of_mem_declarations he
    obtain ⟨name, hholds⟩ := (Symbol.isShowable_of_mem_collect hs).holds _ hr
    exact hholds.within h.runs.ranges hin

/-- Below the containers and outside of them stands every declaration once. -/
lemma perm_shown (text : Text) : ((outline text).flatMap shown).Perm (declarations text) := by
  have hcovers := Container.covers_lines text
  have hnodes : ((containers text).map (nodeOf text)).flatMap shown =
      (containers text).flatMap fun c =>
        (declarations text).filter fun e => c.window.contains e.range.start.line := by
    rw [flatMap_map]
    refine flatMap_congr fun c hc => ?_
    rw [shown, if_pos (isContainer_nodeOf (hcovers.whole c hc).runs), nodeOf]
  have hleaves : ((outside text).map (OutlineNode.mk · [])).flatMap shown = outside text := by
    rw [flatMap_map]
    refine (flatMap_congr fun e he => ?_).trans (List.flatMap_singleton' _)
    rw [shown, isContainer_leaf he]
    rfl
  have hexclude : (containers text).Pairwise fun c c' => ∀ e : OutlineEntry,
      c.window.contains e.range.start.line = true →
        c'.window.contains e.range.start.line = false := by
    refine hcovers.disjoint.imp fun {c c'} hlt e hin => ?_
    simp only [Window.contains, Bool.and_eq_true, decide_eq_true_eq] at hin
    simp only [Window.contains, Bool.and_eq_false_iff, decide_eq_false_iff_not]
    omega
  refine ((perm_outline text).flatMap_right _).trans ?_
  rw [flatMap_append, hnodes, hleaves]
  exact perm_flatMap_filter (fun (c : Container) (e : OutlineEntry) =>
    c.window.contains e.range.start.line) hexclude (declarations text)

lemma nodup_faces (text : Text) : ((collect text).symbols.filterMap Symbol.face?).Nodup := by
  have hkeys : ((collect text).symbols.map (·.key)).Nodup := by
    rw [map_key_symbols]
    exact nodup_foldl_keepFirst _ nodup_nil
  refine List.Pairwise.filterMap _ (fun s s' hne face hface face' hface' => ?_)
    (pairwise_map.mp hkeys)
  obtain ⟨_, -, rfl⟩ := Option.map_eq_some_iff.mp hface
  obtain ⟨_, -, rfl⟩ := Option.map_eq_some_iff.mp hface'
  intro heq
  exact hne (congrArg upper (Prod.mk.inj heq).1)

lemma perm_filter_isContainer (text : Text) :
    ((outline text).filter isContainer).Perm ((containers text).map (nodeOf text)) := by
  have hcovers := Container.covers_lines text
  have hnodes : ((containers text).map (nodeOf text)).filter isContainer =
      (containers text).map (nodeOf text) := by
    refine filter_eq_self.mpr fun n hn => ?_
    obtain ⟨c, hc, rfl⟩ := mem_map.mp hn
    exact isContainer_nodeOf (hcovers.whole c hc).runs
  have hleaves : ((outside text).map (OutlineNode.mk · [])).filter isContainer = [] := by
    refine filter_eq_nil_iff.mpr fun n hn => ?_
    obtain ⟨e, he, rfl⟩ := mem_map.mp hn
    rw [isContainer_leaf he]
    simp
  have hfilter := (perm_outline text).filter isContainer
  rwa [filter_append, hnodes, hleaves, append_nil] at hfilter

end Outline

open Outline in
/-- **The outline is complete and well nested.** -/
theorem outline_isNested (text : Text) : Outline.IsNested text (outline text) := by
  have hcovers := Container.covers_lines text
  have hruns : ∀ c ∈ containers text, c.Runs text := fun c hc => (hcovers.whole c hc).runs
  constructor
  case shown =>
    rw [← map_face_declarations]
    exact (perm_shown text).map _
  case distinct => exact nodup_faces text
  case leaf =>
    intro n hn hleaf
    rcases mem_outline_iff.mp hn with ⟨c, hc, rfl⟩ | ⟨e, -, rfl⟩
    · simp [isContainer_nodeOf (hruns c hc)] at hleaf
    · rfl
  case encloses =>
    intro n hn hcontainer
    rcases mem_outline_iff.mp hn with ⟨c, hc, rfl⟩ | ⟨e, he, rfl⟩
    · exact encloses_nodeOf (hcovers.whole c hc)
    · simp [isContainer_leaf he] at hcontainer
  case covered =>
    intro i line hline hheader
    obtain ⟨c, hc, hin⟩ := hcovers.covered i line (Nat.zero_le i) hline hheader
    refine ⟨nodeOf text c, mem_outline_iff.mpr (.inl ⟨c, hc, rfl⟩),
      isContainer_nodeOf (hruns c hc), ?_⟩
    rw [window_nodeOf (hruns c hc)]
    exact hin
  case disjoint =>
    rw [(perm_filter_isContainer text).pairwise_iff fun h => h.symm, pairwise_map]
    refine hcovers.disjoint.imp_of_mem fun {a b} ha hb hlt => ?_
    rw [window_nodeOf (hruns a ha), window_nodeOf (hruns b hb)]
    exact .inl hlt
  case sorted =>
    have htrans : ∀ a b c, leNode a b = true → leNode b c = true → leNode a c = true :=
      fun _ _ _ => Position.le_trans
    have htotal : ∀ a b, (leNode a b || leNode b a) = true := fun _ _ => Position.le_total _ _
    exact List.pairwise_mergeSort htrans htotal _

end KrlWorkbench
