import KrlWorkbench.Proofs.Pattern.Barrier
import KrlWorkbench.Proofs.Renaming.Declarations

/-!
# Declarations with their strings blanked out

A line that declares variables is read twice: as it is written, for the table of symbols, and with
its strings blanked out, for the checks.  Both readings find the same type and the same names if no
name that is written holds a quote (`TypedList.ofCode?_mask`, `itemName_mask`), so strings may stand
in the initial values and in the indices.

Blanking out a string turns it into a gap, and in front of the list a gap would be read.  But the
first quote of such a list stands behind an equals sign or a bracket, which is a barrier to
everything in front of the list.
-/

namespace KrlWorkbench

open List Code LineRule Text

variable {a v code : Text} {c : Char} {types : List Text} {parts : TypedList}

/-! ## Trimming -/

namespace Text

lemma mem_trim_of_solid (hc : isBlank c = false) (h : c ∈ a) : c ∈ trim a := by
  have hstart : c ∈ trimStart a := by
    rw [← takeWhile_append_trimStart a] at h
    rcases mem_append.mp h with h | h
    · simp [mem_takeWhile_imp h] at hc
    · exact h
  rw [trim, trimEnd, dropEndWhile_eq_rdropWhile]
  rw [← rdropWhile_append_rtakeWhile (p := isBlank) (l := trimStart a)] at hstart
  rcases mem_append.mp hstart with h | h
  · exact h
  · simp [mem_rtakeWhile_imp h] at hc

lemma trimStart_takeWhile {f : Char → Bool} (hf : ∀ c, isBlank c = true → f c = true) (a : Text) :
    trimStart (a.takeWhile f) = (trimStart a).takeWhile f := by
  induction a with
  | nil => rfl
  | cons c a ih =>
    by_cases hc : isBlank c = true
    · rw [takeWhile_cons_of_pos (hf c hc), trimStart, dropWhile_cons_of_pos hc, trimStart,
        dropWhile_cons_of_pos hc]
      exact ih
    · have hself : ∀ b : Text, trimStart (c :: b) = c :: b := by
        intro b
        rw [trimStart, dropWhile_cons_of_neg hc]
      rw [hself]
      by_cases hfc : f c = true
      · rw [takeWhile_cons_of_pos hfc, hself]
      · rw [takeWhile_cons_of_neg hfc]
        rfl

end Text

namespace ListItem

/-- A name with its index is cut at the bracket, whether it is trimmed before or after. -/
lemma stripIndex_trim (a : Text) : stripIndex (trim a) = trim (a.takeWhile (· != '[')) := by
  have hblank : ∀ c, isBlank c = true → (c != '[') = true := by
    intro c hc
    rw [bne_iff_ne]
    rintro rfl
    exact absurd hc (by decide)
  rw [stripIndex]
  split
  case isTrue hmem =>
    rw [contains_iff_mem] at hmem
    obtain ⟨rest, hrest⟩ := trim_prefix_trimStart a
    show trimEnd _ = trimEnd (trimStart _)
    rw [trimStart_takeWhile hblank, ← hrest, List.takeWhile_append, if_neg]
    -- The bracket ends the name before the trimmed text ends.
    intro hlen
    have hall := takeWhile_eq_self_iff.mp ((List.takeWhile_prefix _).eq_of_length hlen)
    simpa using hall '[' hmem
  case isFalse hmem =>
    have hnot : '[' ∉ a := by
      intro h
      exact hmem (contains_iff_mem.mpr (mem_trim_of_solid (by decide) h))
    rw [takeWhile_eq_self_iff.mpr]
    exact fun c hc => bne_iff_ne.mpr (ne_of_mem_of_not_mem hc hnot)

/-! ## Items -/

lemma bracket_maskChar (inside : Bool) (c : Char) :
    isOpening (maskChar inside c) = (isOpening c && !inside) ∧
      isClosing (maskChar inside c) = (isClosing c && !inside) := by
  simp [isOpening, isClosing, maskChar_beq, isAscii, Bool.and_or_distrib_right]

lemma nextDepth_maskChar (depth : Nat) (inside : Bool) (c : Char) :
    nextDepth depth false (maskChar inside c) = nextDepth depth inside c := by
  obtain ⟨hopening, hclosing⟩ := bracket_maskChar inside c
  rw [nextDepth, nextDepth, hopening, hclosing]
  cases inside <;> simp

/-- The pieces of a list with their strings blanked out, when `inside` tells whether a string is
open before the first. -/
def maskPieces (inside : Bool) : List Text → List Text
  | [] => []
  | piece :: rest => maskFrom inside piece :: rest.map mask

lemma maskPieces_false (ps : List Text) : maskPieces false ps = ps.map mask := by
  cases ps <;> rfl

lemma maskPieces_consPiece (inside : Bool) (c : Char) {ps : List Text} (hps : ps ≠ []) :
    maskPieces inside (consPiece c ps) =
      consPiece (maskChar inside c) (maskPieces (insideAfter inside [c]) ps) := by
  obtain ⟨p, ps, rfl⟩ := exists_cons_of_ne_nil hps
  rw [consPiece, maskPieces, maskPieces, consPiece, maskFrom_cons]

/-- **Masking a list masks its pieces:** what structures a list stands outside strings. -/
lemma pieces_maskFrom (depth : Nat) (inside : Bool) (list : Text) :
    pieces depth false (maskFrom inside list) = maskPieces inside (pieces depth inside list) := by
  induction list generalizing depth inside with
  | nil => rfl
  | cons c rest ih =>
    rw [maskFrom_cons]
    by_cases hsep : c = ',' ∧ depth = 0 ∧ inside = false
    · obtain ⟨rfl, rfl, rfl⟩ := hsep
      change pieces 0 false (',' :: maskFrom false rest) = _
      rw [pieces_comma, pieces_comma, ih, maskPieces_false, maskPieces_false, map_cons]
      rfl
    · have hmasked : ¬(maskChar inside c = ',' ∧ depth = 0 ∧ false = false) := by
        rw [← beq_iff_eq, maskChar_beq rfl (by decide) (by decide)]
        simpa using fun hc hinside hzero => hsep ⟨hc, hzero, hinside⟩
      rw [((step_cases depth false _).resolve_left hmasked _).1,
        ((step_cases depth inside c).resolve_left hsep rest).1, nextDepth_maskChar,
        insideAfter_maskChar, ih, maskPieces_consPiece _ _ (pieces_ne_nil _ _ _)]

lemma splitInitialFrom_maskFrom (depth : Int) (inside : Bool) (item : Text) :
    (splitInitialFrom depth false (maskFrom inside item)).1 =
      maskFrom inside (splitInitialFrom depth inside item).1 := by
  induction item generalizing depth inside with
  | nil => rfl
  | cons c rest ih =>
    obtain ⟨hopening, hclosing⟩ := bracket_maskChar inside c
    have hafter : (if (maskChar inside c == '"') = true then !false else false) = false :=
      insideAfter_maskChar inside c
    rw [maskFrom_cons, splitInitialFrom, splitInitialFrom, hafter, hopening, hclosing,
      maskChar_beq rfl (by decide) (by decide), Bool.not_false, Bool.and_true]
    split
    case isTrue => rfl
    case isFalse =>
      rw [maskFrom_cons]
      cases inside <;> simp only [Bool.not_false, Bool.not_true, Bool.and_true, Bool.and_false,
        if_true, if_false, Bool.false_eq_true, ih] <;> rfl

lemma takeWhile_maskFrom {d : Char} (hd : d ≠ '"') (h : '"' ∉ a.takeWhile (· != d)) :
    (maskFrom false a).takeWhile (· != d) = a.takeWhile (· != d) := by
  induction a with
  | nil => rfl
  | cons c a ih =>
    rw [maskFrom_cons]
    by_cases hc : c = d
    · subst hc
      rw [maskChar_false hd, takeWhile_cons_of_neg (by simp), takeWhile_cons_of_neg (by simp)]
    · have hcons : ∀ b : Text, (c :: b).takeWhile (· != d) = c :: b.takeWhile (· != d) :=
        fun b => takeWhile_cons_of_pos (by simpa using hc)
      rw [hcons, mem_cons, not_or] at h
      have hquote := Ne.symm h.1
      rw [maskChar_false hquote, insideAfter_singleton hquote, hcons, hcons, ih h.2]

/-- A name that holds no quote is read the same when strings are blanked out. -/
lemma itemName_mask {item : Text} (h : '"' ∉ itemName item) :
    itemName (mask item) = itemName item := by
  have hname : '"' ∉ (splitInitial item).1.takeWhile (· != '[') := by
    intro hmem
    rw [itemName, stripIndex_trim] at h
    exact h (mem_trim_of_solid (by decide) hmem)
  have hmask : (splitInitial (mask item)).1 = maskFrom false (splitInitial item).1 :=
    splitInitialFrom_maskFrom 0 false item
  rw [itemName, itemName, stripIndex_trim, stripIndex_trim, hmask,
    takeWhile_maskFrom (by decide) hname]

/-! ## The first quote of a list -/

/-- The first quote of a list stands in some item, and what stands before it there stands before it
in the list. -/
lemma exists_quoted_piece {x : Text} (hx : '"' ∉ x) (y : Text) (depth : Nat) :
    ∃ piece ∈ pieces depth false (x ++ '"' :: y), ∃ s t, piece = s ++ '"' :: t ∧ s ⊆ x := by
  induction x generalizing depth with
  | nil =>
    obtain ⟨p, ps, hps⟩ := exists_cons_of_ne_nil (pieces_ne_nil depth true y)
    simp [pieces, hps, consPiece]
  | cons c x ih =>
    rw [mem_cons, not_or] at hx
    rw [cons_append]
    rcases pieces_cons_cases depth false c with ⟨depth', h⟩ | ⟨-, -, h⟩
    · rw [h, insideAfter_singleton (Ne.symm hx.1)]
      obtain ⟨piece, hpiece, s, t, rfl, hs⟩ := ih hx.2 depth'
      obtain ⟨p, ps, hps⟩ :=
        exists_cons_of_ne_nil (pieces_ne_nil depth' false (x ++ '"' :: y))
      rw [hps] at hpiece ⊢
      rcases mem_cons.mp hpiece with rfl | hpiece
      · exact ⟨c :: (s ++ '"' :: t), mem_cons_self, c :: s, t, rfl,
          cons_subset_cons c hs⟩
      · exact ⟨_, mem_cons_of_mem _ hpiece, s, t, rfl, subset_cons_of_subset c hs⟩
    · rw [h]
      obtain ⟨piece, hpiece, s, t, rfl, hs⟩ := ih hx.2 depth
      exact ⟨_, mem_cons_of_mem _ hpiece, s, t, rfl, subset_cons_of_subset c hs⟩

/-- A quote without an equals sign or a bracket before it belongs to the name. -/
lemma quote_mem_itemName {s : Text} (hequals : '=' ∉ s) (hbracket : '[' ∉ s) (t : Text) :
    '"' ∈ itemName (s ++ '"' :: t) := by
  have hsplit : ∀ (depth : Int) (inside : Bool),
      ∃ t', (splitInitialFrom depth inside (s ++ '"' :: t)).1 = s ++ '"' :: t' := by
    induction s with
    | nil =>
      intro depth inside
      exact ⟨_, rfl⟩
    | cons c s ih =>
      intro depth inside
      rw [mem_cons, not_or] at hequals hbracket
      have hc : ¬((c == '=' && !inside && depth == 0) = true) := by simp [Ne.symm hequals.1]
      rw [cons_append, splitInitialFrom, if_neg hc]
      dsimp only
      obtain ⟨t', ht'⟩ := ih hequals.2 hbracket.2 _ _
      exact ⟨t', by rw [ht', cons_append]⟩
  obtain ⟨t', ht'⟩ := hsplit 0 false
  have htake : '"' ∈ (s ++ '"' :: t').takeWhile (· != '[') := by
    rw [takeWhile_append_of_pos]
    · simp
    · exact fun c hc => bne_iff_ne.mpr (ne_of_mem_of_not_mem hc hbracket)
  rw [itemName, stripIndex_trim, splitInitial, ht']
  exact mem_trim_of_solid (by decide) htake

/-- **The barrier.** If no name in a list holds a quote, the first quote of the list stands behind
an equals sign or a bracket. -/
lemma exists_barrier {list : Text} (h : ∀ piece ∈ pieces 0 false list, '"' ∉ itemName piece)
    (hquote : '"' ∈ list) : ∃ a c b, list = a ++ c :: b ∧ (c = '=' ∨ c = '[') ∧ '"' ∉ a := by
  obtain ⟨x, y, rfl, hx⟩ := eq_append_cons_of_mem hquote
  obtain ⟨piece, hpiece, s, t, rfl, hs⟩ := exists_quoted_piece hx y 0
  obtain ⟨c, hc, hmem⟩ : ∃ c, (c = '=' ∨ c = '[') ∧ c ∈ x := by
    by_contra hnone
    simp only [not_exists, not_and] at hnone
    exact h _ hpiece (quote_mem_itemName (fun hmem => hnone '=' (.inl rfl) (hs hmem))
      (fun hmem => hnone '[' (.inr rfl) (hs hmem)) t)
  obtain ⟨a, x', rfl⟩ := append_of_mem hmem
  exact ⟨a, c, x' ++ '"' :: y, by simp, hc, fun ha => hx (mem_append_left _ ha)⟩

end ListItem

/-! ## The rules -/

lemma Pattern.Fits.getLast?_of_gap {p : Pattern} {here : Cursor} {u : Text} {found : Groups}
    (h : Fits (p ++ gap) here u v found) : ∃ d, u.getLast? = some d ∧ isBlank d = true := by
  obtain ⟨w, s, _, _, rfl, -, -, hgap⟩ := h.exists_of_append
  obtain ⟨hs, hne⟩ := hgap.forall_of_gap
  refine ⟨s.getLast hne, ?_, hs _ (getLast_mem hne)⟩
  rw [getLast?_append_of_ne_nil _ hne, getLast?_eq_some_getLast hne]

namespace LineRule

open Pattern

/-- The rule for declarations in front of the list. -/
def listFront : Pattern :=
  indent ++ maybe 1 "GLOBAL" ++ maybe 2 "CONST" ++ maybe 3 "DECL" ++ maybe 4 "GLOBAL" ++
    maybe 5 "CONST" ++ .group 6 systemName ++ gap

/-- The list, to the end of the line. -/
def listTail : Pattern :=
  .group 7 (.one isSolid ++ .many isInLine) ++ .textEnd

lemma run_declaration {β : Type} (here : Cursor) (g : Groups) (k : Cursor → Groups → Option β) :
    declaration.pattern.run here g k = listFront.run here g fun c g => listTail.run c g k :=
  rfl

/-- The characters behind which strings stand are barriers to the front of a rule. -/
lemma stopsAt_fronts (hc : c = '=' ∨ c = '[') :
    listFront.stopsAt c = true ∧
      (indent ++ maybe 1 "GLOBAL" ++ keyword "SIGNAL" ++ gap).stopsAt c = true := by
  rcases hc with rfl | rfl <;> decide +kernel

/-- Whether a text goes on with a character that is no blank. -/
def goesOn (v : Text) : Bool :=
  v.head?.any isSolid

section Results

variable {α β : Type}

lemma rel_map {f : α → β} {R : β → β → Prop} {r r' : Option α}
    (h : Option.Rel (fun a a' => R (f a) (f a')) r r') : Option.Rel R (r.map f) (r'.map f) := by
  cases h with
  | none => exact .none
  | some h => exact .some h

lemma rel_of_isSome_eq {r r' : Option α} (h : r.isSome = r'.isSome) :
    Option.Rel (fun _ _ => True) r r' := by
  cases r <;> cases r' <;> simp_all

end Results

section Tails

variable {β : Type} {x v : Text} {g : Groups} {k : Cursor → Groups → Option β}

/-- The list is everything up to the end of the line. -/
lemma run_listTail (hv : ∀ c ∈ v, isInLine c = true) (hgoes : goesOn v = true) {result : β}
    (h : k (between (x ++ v) []) ((7, ⟨byteLength x, v⟩) :: g) = some result) :
    listTail.run (between x v) g k = some result := by
  cases v with
  | nil => simp [goesOn] at hgoes
  | cons c v =>
    have hc : isSolid c = true := hgoes
    have hgroup := upTo_between x (c :: v) []
    rw [append_nil] at hgroup
    change (if isSolid c then runMany isInLine _ v ((between x (c :: v)).past c v) else none) =
      some result
    rw [if_pos hc, past_between]
    refine runMany_isInLine (forall_mem_cons.mp hv).2 ?_
    rw [append_assoc]
    change textEnd.run _ ((7, Cursor.upTo _ (between (x ++ c :: v) [])) :: g) k = _
    rw [hgroup]
    exact h

lemma run_listTail_eq_none (hgoes : goesOn v = false) : listTail.run (between x v) g k = none := by
  cases v with
  | nil => rfl
  | cons c v =>
    have hc : isSolid c = false := hgoes
    change (if isSolid c then _ else none) = none
    rw [if_neg (by simp [hc])]

lemma run_signalTail_eq_none (hgoes : goesOn v = false) :
    signalTail.run (between x v) g k = none := by
  refine run_atLeastOne_eq_none ?_
  cases v with
  | nil => rfl
  | cons c v => exact takeWhile_cons_of_neg (by simpa [goesOn] using hgoes)

/-- The name of a signal is everything up to the next blank. -/
lemma run_signalTail_of_goesOn (hv : ∀ c ∈ v, isInLine c = true) (hgoes : goesOn v = true) :
    ∃ value : Capture, ∀ result : β,
      k (between (x ++ v) []) ((3, value) :: (2, ⟨byteLength x, v.takeWhile isSolid⟩) :: g) =
        some result → signalTail.run (between x v) g k = some result := by
  set u := v.takeWhile isSolid with hu
  set rest := v.dropWhile isSolid with hrest
  have hv' : v = u ++ (rest.takeWhile isBlank ++ rest.dropWhile isBlank) := by
    rw [takeWhile_append_dropWhile, hu, hrest, takeWhile_append_dropWhile]
  have hne : u ≠ [] := by
    cases v with
    | nil => simp [goesOn] at hgoes
    | cons c v =>
      rw [hu, takeWhile_cons_of_pos (by simpa [goesOn] using hgoes)]
      exact cons_ne_nil _ _
  refine ⟨⟨byteLength (x ++ (u ++ rest.takeWhile isBlank)), rest.dropWhile isBlank⟩, ?_⟩
  intro result hresult
  rw [hv'] at hresult ⊢
  refine run_signalTail hne (by rw [← hv', hu]) (by rw [takeWhile_append_dropWhile]) ?_ hresult
  exact fun c hc => hv c ((dropWhile_suffix _).subset ((dropWhile_suffix _).subset hc))

lemma isSome_run_signalTail (hv : ∀ c ∈ v, isInLine c = true)
    (hk : ∀ c g, (k c g).isSome = true) : (signalTail.run (between x v) g k).isSome = goesOn v := by
  cases hgoes : goesOn v with
  | false =>
    rw [run_signalTail_eq_none hgoes]
    rfl
  | true =>
    obtain ⟨value, hvalue⟩ := run_signalTail_of_goesOn hv hgoes
    obtain ⟨result, hresult⟩ := Option.isSome_iff_exists.mp (hk _ _)
    rw [hvalue result hresult]
    rfl

end Tails

/-- Matches of the rule for declarations that differ in the strings of the list only. -/
structure SameList (m m' : Match) : Prop where
  front : ∀ i, i ≠ 7 → m'.group? i = m.group? i
  list : ∀ list, m.group? 7 = some list → m'.group? 7 = some ⟨list.start, mask list.text⟩ ∧
    (trimStart (mask list.text)).head? = (trimStart list.text).head?

lemma sameList_of_groups {m m' : Match} {g : Groups} {start : Nat} {list : Text}
    (h : m.groups = (7, ⟨start, list⟩) :: g) (h' : m'.groups = (7, ⟨start, mask list⟩) :: g)
    (hhead : (trimStart (mask list)).head? = (trimStart list).head?) : SameList m m' := by
  constructor
  · intro i hi
    have hne : (i == 7) = false := by simpa using hi
    rw [Match.group?, Match.group?, h, h', lookup_cons, lookup_cons, hne]
  · intro found hfound
    rw [Match.group?, h, lookup_cons_self] at hfound
    obtain rfl := Option.some.inj hfound
    rw [Match.group?, h', lookup_cons_self]
    exact ⟨rfl, hhead⟩

lemma isInLine_of_noBreak {line : Text} (h : NoBreak line) :
    ∀ d ∈ codePart line, isInLine d = true := by
  intro d hd
  rw [isInLine, bne_iff_ne]
  exact (h d ((codePart_isPrefix line).subset hd)).1

lemma trimStart_of_goesOn (h : goesOn v = true) : trimStart v = v := by
  cases v with
  | nil => rfl
  | cons c v => exact dropWhile_cons_of_neg (by simpa [goesOn, isSolid] using h)

/-- What stands before a barrier, and the barrier, are not masked. -/
lemma mask_append_barrier (hc : c = '=' ∨ c = '[') (ha : '"' ∉ a) (b : Text) :
    mask (a ++ c :: b) = a ++ c :: mask b := by
  have hquote : c ≠ '"' := by rcases hc with rfl | rfl <;> decide
  rw [mask, maskFrom_append, maskFrom_false_of_not_mem ha, insideAfter_of_not_mem ha,
    maskFrom_cons, maskChar_false hquote, insideAfter_singleton hquote]
  rfl

section Masked

variable {a b : Text} {c : Char} (hc : c = '=' ∨ c = '[') (ha : '"' ∉ a)
  (hline : ∀ d ∈ a ++ c :: b, isInLine d = true)

include hc ha hline

/-- Behind the front of a rule a line and the masked line go on alike. -/
lemma goesOn_mask {u : Text} (hu : a = u ++ v) : goesOn (v ++ c :: mask b) = goesOn (v ++ c :: b) ∧
    mask (v ++ c :: b) = v ++ c :: mask b ∧ (∀ d ∈ v ++ c :: b, isInLine d = true) ∧
    ∀ d ∈ v ++ c :: mask b, isInLine d = true := by
  subst hu
  have hmask := mask_append_barrier hc (fun hmem => ha (mem_append_right _ hmem)) b
  have hv : ∀ d ∈ v ++ c :: b, isInLine d = true := fun d hd =>
    hline d (by rw [append_assoc]; exact mem_append_right _ hd)
  refine ⟨by simp [goesOn, head?_append], hmask, hv, ?_⟩
  rw [← hmask]
  exact forall_mem_maskFrom (by decide) (fun d hd _ => hv d hd) false

lemma declaration_mask :
    Option.Rel SameList (declaration.find? (a ++ c :: b))
      (declaration.find? (mask (a ++ c :: b))) := by
  have hmatch : Option.Rel (fun r r' : Match × Cursor => SameList r.1 r'.1)
      (declaration.pattern.matchAt (between [] (a ++ c :: b)))
      (declaration.pattern.matchAt (between [] (a ++ c :: mask b))) := by
    rw [matchAt, matchAt, run_declaration, run_declaration]
    refine rel_run_of_stopsAt (stopsAt_fronts hc).1 ?_
    intro u a' g hu
    obtain ⟨hsame, hmask, hv, hv'⟩ := goesOn_mask hc ha hline hu
    cases hgoes : goesOn (a' ++ c :: b) with
    | false =>
      rw [run_listTail_eq_none hgoes, run_listTail_eq_none (hsame.trans hgoes)]
      exact .none
    | true =>
      rw [run_listTail hv hgoes rfl, run_listTail hv' (hsame.trans hgoes) rfl]
      refine .some (sameList_of_groups rfl (by rw [hmask]) ?_)
      rw [hmask, trimStart_of_goesOn hgoes, trimStart_of_goesOn (hsame.trans hgoes)]
      simp
  rw [mask_append_barrier hc ha, find?, find?, find?_of_startsText rfl, find?_of_startsText rfl]
  exact rel_map hmatch

lemma isSome_signal_mask :
    (signal.find? (mask (a ++ c :: b))).isSome = (signal.find? (a ++ c :: b)).isSome := by
  have hmatch : Option.Rel (fun _ _ : Match × Cursor => True)
      (signal.pattern.matchAt (between [] (a ++ c :: b)))
      (signal.pattern.matchAt (between [] (a ++ c :: mask b))) := by
    rw [matchAt, matchAt, run_signal, run_signal]
    refine rel_run_of_stopsAt (stopsAt_fronts hc).2 ?_
    intro u a' g hu
    obtain ⟨hsame, -, hv, hv'⟩ := goesOn_mask hc ha hline hu
    refine rel_of_isSome_eq ?_
    rw [isSome_run_signalTail hv fun _ _ => rfl, isSome_run_signalTail hv' fun _ _ => rfl, hsame]
  rw [mask_append_barrier hc ha, find?, find?, find?_of_startsText rfl,
    find?_of_startsText rfl, Option.isSome_map, Option.isSome_map]
  exact (isSome_eq_of_rel hmatch).symm

end Masked

end LineRule

/-! ## Typed lists -/

lemma TypedList.ofCode?_mono {types' : List Text} (htypes : types ⊆ types')
    (h : ofCode? types code = some parts) : ofCode? types' code = some parts := by
  simp only [ofCode?, Option.bind_eq_bind, Option.bind_eq_some_iff] at h ⊢
  obtain ⟨m, hm, list, hlist, h⟩ := h
  refine ⟨m, hm, list, hlist, ?_⟩
  split_ifs at h with hreserved hunknown hassigned
  rw [if_neg hreserved, if_neg, if_neg hassigned, h]
  intro hcontra
  refine hunknown ?_
  simp only [Bool.and_eq_true, Bool.not_eq_true', contains_eq_mem, decide_eq_false_iff_not]
    at hcontra ⊢
  exact ⟨hcontra.1, fun hmem => hcontra.2 (htypes hmem)⟩

/-- A typed list that is read in a line is read in the masked line. -/
lemma TypedList.ofCode?_of_sameList {code' : Text} {m m' : Match}
    (hm : declaration.find? code = some m)
    (hm' : declaration.find? code' = some m') (hsame : SameList m m')
    (h : ofCode? types code = some parts) :
    ofCode? types code' = some { parts with list := mask parts.list } := by
  simp only [ofCode?, hm, Option.bind_eq_bind, Option.bind_some, Option.bind_eq_some_iff] at h
  obtain ⟨list, hlist, h⟩ := h
  obtain ⟨hlist', hhead⟩ := hsame.list list hlist
  have hhas : ∀ i, i ≠ 7 → m'.has i = m.has i := by
    intro i hi
    rw [Match.has, Match.has, hsame.front i hi]
  have htext : m'.text 6 = m.text 6 := by
    rw [Match.text, Match.text, hsame.front 6 (by decide)]
  simp only [ofCode?, hm', hlist', Option.bind_eq_bind, Option.bind_some, htext, hhas 1 (by decide),
    hhas 2 (by decide), hhas 3 (by decide), hhas 4 (by decide), hhas 5 (by decide), hhead]
  split_ifs at h with hreserved hunknown hassigned
  obtain rfl := Option.some.inj h
  rw [if_neg hreserved, if_neg hunknown, if_neg hassigned]

/-- In front of a typed list stands no quote and at last a blank, and behind it nothing. -/
lemma TypedList.exists_front (h : ofCode? types code = some parts) :
    ∃ front, code = front ++ parts.list ∧ '"' ∉ front ∧
      ∃ d, front.getLast? = some d ∧ isBlank d = true := by
  simp only [ofCode?, Option.bind_eq_bind, Option.bind_eq_some_iff] at h
  obtain ⟨m, hm, list, hlist, h⟩ := h
  split_ifs at h
  obtain rfl := Option.some.inj h
  obtain ⟨u, v, rfl, hfits⟩ := Pattern.exists_fits_of_find? rfl hm
  have hrule : declaration.pattern =
      listFront ++ .group 7 (.one isSolid ++ .many isInLine) ++
        .textEnd := rfl
  obtain ⟨w, e, f, f', rfl, hgroups, hfits, hend⟩ := hfits.exists_of_append
  obtain ⟨front, piece, g, g', rfl, rfl, hfront, hpiece⟩ := hfits.exists_of_append
  cases hend with
  | textEnd =>
    cases hpiece with
    | group _ _ =>
      rw [Match.group?, hgroups, nil_append, cons_append, lookup_cons_self] at hlist
      obtain rfl := Option.some.inj hlist
      exact ⟨front, by simp, hfront.not_mem_of_stopsAt (by decide +kernel),
        hfront.getLast?_of_gap⟩

/-- **A typed list with its strings blanked out.**  If no name in the list holds a quote, the masked
line is read as the same declaration and not as a signal. -/
lemma TypedList.ofCode?_mask (hline : ∀ d ∈ code, isInLine d = true)
    (h : ofCode? types code = some parts)
    (hnames : ∀ piece ∈ ListItem.pieces 0 false parts.list, '"' ∉ itemName piece)
    (hsignal : signal.find? code = none) :
    signal.find? (mask code) = none ∧
      ofCode? types (mask code) = some { parts with list := mask parts.list } := by
  obtain ⟨front, hcode, hfront, -⟩ := exists_front h
  by_cases hquote : '"' ∈ parts.list
  · obtain ⟨a, c, b, hlist, hc, ha⟩ := ListItem.exists_barrier hnames hquote
    have hcode' : code = (front ++ a) ++ c :: b := by rw [hcode, hlist, append_assoc]
    have ha' : '"' ∉ front ++ a := by
      rw [mem_append, not_or]
      exact ⟨hfront, ha⟩
    rw [hcode'] at hline h hsignal ⊢
    obtain ⟨m, hm⟩ : ∃ m, declaration.find? (front ++ a ++ c :: b) = some m := by
      simp only [ofCode?, Option.bind_eq_bind, Option.bind_eq_some_iff] at h
      obtain ⟨m, hm, -⟩ := h
      exact ⟨m, hm⟩
    obtain ⟨m', hm', hsame⟩ :=
      exists_of_rel_some (declaration_mask hc ha' hline) hm
    refine ⟨?_, ofCode?_of_sameList hm hm' hsame h⟩
    have hsome := isSome_signal_mask hc ha' hline
    rw [hsignal] at hsome
    simpa using hsome
  · have hnone : '"' ∉ code := by
      rw [hcode, mem_append, not_or]
      exact ⟨hfront, hquote⟩
    rw [mask, mask, maskFrom_false_of_not_mem hnone, maskFrom_false_of_not_mem hquote]
    exact ⟨hsignal, h⟩

end KrlWorkbench
