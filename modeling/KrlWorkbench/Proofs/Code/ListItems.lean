import KrlWorkbench.Proofs.Code.BlockKeywords

/-!
# Joining items to a list

A list is split at the commas that stand outside strings and at depth zero.  `stateAfter` reads a
text the way the split does and tells where it ends, if no comma of the text separates items.  A
text that ends where it began, outside strings and at depth zero, is whole: what follows it is read
as if it stood alone.

The pieces of a list are a sequence of whole items with an item behind them that may leave brackets
or a string open (`Items`), and joined again such a sequence has itself for its pieces
(`pieces_intercalate`).  So items may be left out, or blanks added around them, and the list of the
others is read as before.
-/

namespace KrlWorkbench.ListItem

open List Text

/-! ## Reading on behind a text -/

variable {depth depth' : Nat} {inside inside' : Bool} {a b p : Text} {ps : List Text}

lemma stateAfter_comma (rest : Text) : stateAfter 0 false (',' :: rest) = none := by
  rw [stateAfter]
  rfl

lemma stateAfter_append (depth : Nat) (inside : Bool) (a b : Text) :
    stateAfter depth inside (a ++ b) =
      (stateAfter depth inside a).bind fun s => stateAfter s.1 s.2 b := by
  induction a generalizing depth inside with
  | nil => rfl
  | cons c a ih =>
    rcases step_cases depth inside c with ⟨rfl, rfl, rfl⟩ | hstep
    · rw [cons_append, stateAfter_comma, stateAfter_comma]
      rfl
    · rw [cons_append, (hstep _).2, (hstep _).2, ih]

/-- What follows is read from the state behind the text. -/
lemma pieces_append {first : Text} {more : List Text}
    (h : stateAfter depth inside a = some (depth', inside'))
    (hb : pieces depth' inside' b = first :: more) :
    pieces depth inside (a ++ b) = (a ++ first) :: more := by
  induction a generalizing depth inside with
  | nil =>
    obtain ⟨rfl, rfl⟩ := Prod.mk.inj (Option.some.inj h)
    exact hb
  | cons c a ih =>
    rcases step_cases depth inside c with ⟨rfl, rfl, rfl⟩ | hstep
    · rw [stateAfter_comma] at h
      cases h
    · rw [(hstep a).2] at h
      rw [cons_append, (hstep _).1, ih h, consPiece, cons_append]

/-! ## Items -/

/-- No comma of the text separates items. -/
def IsItem (p : Text) : Prop :=
  (stateAfter 0 false p).isSome = true

/-- No comma of the text separates items, and it ends outside strings and at depth zero. -/
def IsWhole (p : Text) : Prop :=
  stateAfter 0 false p = some (0, false)

lemma IsWhole.isItem (h : IsWhole p) : IsItem p := by
  rw [IsItem, h]
  rfl

/-- Whole items with an item behind them. -/
inductive Items : List Text → Prop
  | last {p : Text} (hp : IsItem p) : Items [p]
  | more {p : Text} {ps : List Text} (hp : IsWhole p) (hps : Items ps) : Items (p :: ps)

lemma items_of_isWhole (hne : ps ≠ []) (h : ∀ p ∈ ps, IsWhole p) : Items ps := by
  induction ps with
  | nil => exact absurd rfl hne
  | cons p ps ih =>
    have hp := h p mem_cons_self
    cases ps with
    | nil => exact .last hp.isItem
    | cons q ps => exact .more hp (ih (by simp) (forall_mem_cons.mp h).2)

lemma Items.isItem_of_mem (h : Items ps) (hp : p ∈ ps) : IsItem p := by
  induction h with
  | last hq => rwa [mem_singleton.mp hp]
  | more hq _ ih =>
    rcases mem_cons.mp hp with rfl | hp
    · exact hq.isItem
    · exact ih hp

lemma Items.sublist {qs : List Text} (h : Items ps) (hqs : qs.Sublist ps) (hne : qs ≠ []) :
    Items qs := by
  induction h generalizing qs with
  | @last p hp =>
    rcases sublist_singleton.mp hqs with rfl | rfl
    · exact absurd rfl hne
    · exact .last hp
  | @more p ps hp _ ih =>
    cases hqs with
    | cons _ hqs => exact ih hqs hne
    | @cons_cons qs _ _ hqs =>
      cases qs with
      | nil => exact .last hp.isItem
      | cons q qs => exact .more hp (ih hqs (by simp))

lemma Items.map {f : Text → Text} (hf : ∀ p, stateAfter 0 false (f p) = stateAfter 0 false p)
    (h : Items ps) : Items (ps.map f) := by
  induction h with
  | @last p hp =>
    refine .last ?_
    rwa [IsItem, hf]
  | @more p ps hp _ ih =>
    refine .more ?_ ih
    rwa [IsWhole, hf]

/-- The pieces read from a state: the first ends outside strings and at depth zero, unless it is the
last one. -/
lemma exists_pieces_eq (depth : Nat) (inside : Bool) (list : Text) :
    ∃ first more, pieces depth inside list = first :: more ∧
      (more = [] ∧ (stateAfter depth inside first).isSome = true ∨
        stateAfter depth inside first = some (0, false) ∧ Items more) := by
  induction list generalizing depth inside with
  | nil => exact ⟨[], [], rfl, .inl ⟨rfl, rfl⟩⟩
  | cons c rest ih =>
    rcases step_cases depth inside c with ⟨rfl, rfl, rfl⟩ | hstep
    · obtain ⟨first, more, hpieces, hfirst⟩ := ih 0 false
      refine ⟨[], first :: more, by rw [pieces_comma, hpieces], .inr ⟨rfl, ?_⟩⟩
      rcases hfirst with ⟨rfl, hfirst⟩ | ⟨hfirst, hmore⟩
      · exact .last hfirst
      · exact .more hfirst hmore
    · obtain ⟨first, more, hpieces, hfirst⟩ := ih (nextDepth depth inside c) _
      refine ⟨c :: first, more, by rw [(hstep rest).1, hpieces, consPiece], ?_⟩
      rwa [(hstep first).2]

/-- **The pieces of a list are items.** -/
lemma items_pieces (list : Text) : Items (pieces 0 false list) := by
  obtain ⟨first, more, hpieces, ⟨rfl, hfirst⟩ | ⟨hfirst, hmore⟩⟩ := exists_pieces_eq 0 false list
  · rw [hpieces]
    exact .last hfirst
  · rw [hpieces]
    exact .more hfirst hmore

/-- **Joined, items are the pieces of their list.** -/
lemma pieces_intercalate (h : Items ps) : pieces 0 false ([','].intercalate ps) = ps := by
  induction h with
  | @last p hp =>
    obtain ⟨⟨depth, inside⟩, hstate⟩ := Option.isSome_iff_exists.mp hp
    have hpieces := pieces_append hstate (b := []) rfl
    simpa using hpieces
  | @more p ps hp hps ih =>
    obtain ⟨q, qs, rfl⟩ : ∃ q qs, ps = q :: qs := by cases hps <;> exact ⟨_, _, rfl⟩
    have hcomma : pieces 0 false (',' :: [','].intercalate (q :: qs)) = [] :: q :: qs := by
      rw [pieces_comma, ih]
    have hpieces := pieces_append hp hcomma
    simpa using hpieces

/-- The depth behind a text, whether or not items end in it. -/
def depthBehind (depth : Nat) (inside : Bool) : Text → Nat
  | [] => depth
  | c :: rest => depthBehind (nextDepth depth inside c) (Code.insideAfter inside [c]) rest

/-- An item stands behind the others and the commas between them. -/
lemma offset_of_withOffsets {n : Nat} {item : ListItem} {items rest : List ListItem}
    (h : withOffsets n ps = items ++ item :: rest) :
    item.offset = n + byteLength (items.flatMap fun i => i.text ++ [',']) := by
  induction items generalizing n ps with
  | nil =>
    cases ps with
    | nil => cases h
    | cons p ps =>
      cases h
      rfl
  | cons i items ih =>
    cases ps with
    | nil => cases h
    | cons p ps =>
      obtain ⟨rfl, hrest⟩ := List.cons.inj h
      have hcomma : Char.utf8Size ',' = 1 := rfl
      rw [ih hrest]
      simp [hcomma]
      omega

/-- Where the items behind the first begin. -/
def laterStarts (n : Nat) (ps : List Text) : List Nat :=
  (withOffsets n ps).tail.map offset

/-- A comma at depth zero outside strings begins an item, and no other character does. -/
lemma laterStarts_pieces_cons (n depth : Nat) (inside : Bool) (c : Char) (rest : Text) :
    laterStarts n (pieces depth inside (c :: rest)) =
      (if c = ',' ∧ depth = 0 ∧ inside = false then [n + 1] else []) ++
        laterStarts (n + c.utf8Size)
          (pieces (nextDepth depth inside c) (Code.insideAfter inside [c]) rest) := by
  obtain ⟨p, ps, hps⟩ := exists_cons_of_ne_nil
    (pieces_ne_nil (nextDepth depth inside c) (Code.insideAfter inside [c]) rest)
  split
  case isTrue hsep =>
    obtain ⟨rfl, rfl, rfl⟩ := hsep
    have hrest : pieces 0 false rest = p :: ps := hps
    rw [pieces_comma, hrest, hps]
    rfl
  case isFalse hsep =>
    rw [((step_cases depth inside c).resolve_left hsep rest).1, hps]
    simp only [laterStarts, consPiece, withOffsets, tail_cons, byteLength_cons, nil_append,
      ← Nat.add_assoc]

/-- **Items end at the commas at depth zero outside strings**, and begin behind them. -/
lemma mem_laterStarts_iff {m n : Nat} {list : Text} :
    m ∈ laterStarts n (pieces depth inside list) ↔
      ∃ a b, list = a ++ ',' :: b ∧ m = n + byteLength a + 1 ∧
        Code.insideAfter inside a = false ∧ depthBehind depth inside a = 0 := by
  induction list generalizing n depth inside with
  | nil => simp [pieces, laterStarts, withOffsets]
  | cons c rest ih =>
    rw [laterStarts_pieces_cons, mem_append, ih]
    constructor
    · rintro (h | ⟨a, b, rfl, rfl, hinside, hdepth⟩)
      · split at h
        case isTrue hsep =>
          obtain ⟨rfl, rfl, rfl⟩ := hsep
          exact ⟨[], rest, rfl, mem_singleton.mp h, rfl, rfl⟩
        case isFalse => cases h
      · exact ⟨c :: a, b, rfl, by rw [byteLength_cons, Nat.add_assoc n], hinside, hdepth⟩
    · rintro ⟨a, b, hlist, rfl, hinside, hdepth⟩
      cases a with
      | nil =>
        rw [if_pos ⟨(List.cons.inj hlist).1, hdepth, hinside⟩]
        exact .inl mem_cons_self
      | cons d a =>
        obtain ⟨rfl, rfl⟩ := List.cons.inj hlist
        exact .inr ⟨a, b, rfl, by rw [byteLength_cons, ← Nat.add_assoc n], hinside, hdepth⟩

/-- **A list is split without loss and exactly.**  Its items with commas between them are the list,
each stands at its offset, and they end at those commas before which the number of quotes is even
and the depth is zero.  An item by itself is not split further. -/
theorem split_isExact (list : Text) :
    [','].intercalate ((split list).map text) = list ∧
    (∀ items item rest, split list = items ++ item :: rest →
      item.offset = byteLength (items.flatMap fun i => i.text ++ [',']) ∧
        slice item.offset (item.offset + byteLength item.text) list = item.text) ∧
    (∀ n, (∃ item ∈ (split list).tail, item.offset = n + 1) ↔
      ∃ a b, list = a ++ ',' :: b ∧ byteLength a = n ∧ a.count '"' % 2 = 0 ∧
        depthBehind 0 false a = 0) ∧
    ∀ item ∈ split list, split item.text = [⟨0, item.text⟩] := by
  refine ⟨?_, fun items item rest h => ⟨?_, ?_⟩, fun n => ?_, fun item h => ?_⟩
  · rw [map_text_split, intercalate_pieces]
  · rw [offset_of_withOffsets h, Nat.zero_add]
  · obtain ⟨before, after, hlist, hoffset⟩ := inside_of_mem_split (h ▸ mem_append_cons_self)
    dsimp only at hlist hoffset
    rw [slice, Nat.add_sub_cancel_left, hoffset, hlist, dropBytes_append, takeBytes_append]
  · have hiff : n + 1 ∈ laterStarts 0 (pieces 0 false list) ↔ _ := mem_laterStarts_iff
    rw [laterStarts, mem_map] at hiff
    rw [split, hiff]
    refine exists₂_congr fun a b => and_congr_right fun _ => ?_
    rw [Code.insideAfter_eq, Nat.zero_add, Nat.add_right_cancel_iff, eq_comm]
    simp
  · have hitem : item.text ∈ pieces 0 false list := by
      rw [← map_text_split]
      exact mem_map_of_mem h
    have hpieces := pieces_intercalate (.last ((items_pieces list).isItem_of_mem hitem))
    rw [intercalate_singleton] at hpieces
    rw [split, hpieces]
    rfl

lemma mem_of_mem_intercalate {c : Char} {sep : Text} (h : c ∈ sep.intercalate ps) :
    c ∈ sep ∨ ∃ p ∈ ps, c ∈ p := by
  induction ps with
  | nil => simp at h
  | cons p ps ih =>
    cases ps with
    | nil => exact .inr ⟨p, mem_cons_self, by simpa using h⟩
    | cons q ps =>
      rw [intercalate_cons_cons, mem_append, mem_append] at h
      rcases h with (h | h) | h
      · exact .inr ⟨p, mem_cons_self, h⟩
      · exact .inl h
      · exact (ih h).imp_right fun ⟨r, hr, hc⟩ => ⟨r, mem_cons_of_mem _ hr, hc⟩

/-! ## Characters that structure nothing -/

/-- The characters that the readers of lists take notice of. -/
def structural : List Char :=
  ['[', '\x7b', '(', ']', '\x7d', ')', '"', ',', '=']

/-- The text holds none of them. -/
def IsPlain (a : Text) : Prop :=
  ∀ c ∈ a, c ∉ structural

lemma isPlain_of_class {f : Char → Bool} (hf : ∀ d ∈ structural, f d = false)
    (ha : ∀ c ∈ a, f c = true) : IsPlain a := by
  intro c hc hmem
  have hnot := hf c hmem
  rw [ha c hc] at hnot
  cases hnot

lemma isPlain_of_isBlanks (ha : IsBlanks a) : IsPlain a :=
  isPlain_of_class (by decide) ha

lemma isPlain_of_isWord (ha : IsWord a) : IsPlain a :=
  isPlain_of_class (by decide) ha.chars

lemma IsPlain.append (ha : IsPlain a) (hb : IsPlain b) : IsPlain (a ++ b) :=
  fun c hc => (mem_append.mp hc).elim (ha c) (hb c)

lemma bracket_of_not_mem {c : Char} (hc : c ∉ structural) :
    isOpening c = false ∧ isClosing c = false := by
  simp only [structural, mem_cons, not_mem_nil, or_false, not_or] at hc
  simp [isOpening, isClosing, hc]

lemma stateAfter_of_isPlain (ha : IsPlain a) (depth : Nat) (inside : Bool) :
    stateAfter depth inside a = some (depth, inside) := by
  induction a with
  | nil => rfl
  | cons c a ih =>
    have hc := ha c mem_cons_self
    have hquote : c ≠ '"' := by rintro rfl; exact hc (by decide)
    have hcomma : c ≠ ',' := by rintro rfl; exact hc (by decide)
    have hrest := ih (forall_mem_cons.mp ha).2
    simp [stateAfter, hquote, hcomma, bracket_of_not_mem hc, hrest]

lemma splitInitialFrom_of_isPlain (ha : IsPlain a) (depth : Int) (inside : Bool) (rest : Text) :
    splitInitialFrom depth inside (a ++ rest) =
      (a ++ (splitInitialFrom depth inside rest).1, (splitInitialFrom depth inside rest).2) := by
  induction a with
  | nil => rfl
  | cons c a ih =>
    have hc := ha c mem_cons_self
    have hquote : c ≠ '"' := by rintro rfl; exact hc (by decide)
    have hequals : c ≠ '=' := by rintro rfl; exact hc (by decide)
    have hrest := ih (forall_mem_cons.mp ha).2
    rw [cons_append, splitInitialFrom]
    simp [hquote, hequals, bracket_of_not_mem hc, hrest]

/-! ## Blanks around items -/

lemma stateAfter_blanks_append (ha : IsBlanks a) (b : Text) :
    stateAfter depth inside (a ++ b) = stateAfter depth inside b := by
  rw [stateAfter_append, stateAfter_of_isPlain (isPlain_of_isBlanks ha), Option.bind_some]

lemma stateAfter_append_blanks (hb : IsBlanks b) (a : Text) :
    stateAfter depth inside (a ++ b) = stateAfter depth inside a := by
  rw [stateAfter_append]
  cases stateAfter depth inside a with
  | none => rfl
  | some s => rw [Option.bind_some, stateAfter_of_isPlain (isPlain_of_isBlanks hb)]

lemma stateAfter_trim (a : Text) :
    stateAfter depth inside (trim a) = stateAfter depth inside a := by
  obtain ⟨lead, tail, hlead, htail, ha⟩ := exists_append_trim a
  conv => rhs; rw [ha]
  rw [stateAfter_blanks_append hlead, stateAfter_append_blanks htail]

lemma intercalate_spaced (p : Text) (ps : List Text) :
    (", ".toList).intercalate (p :: ps) = [','].intercalate (p :: ps.map (' ' :: ·)) := by
  induction ps generalizing p with
  | nil => simp
  | cons q ps ih =>
    rw [intercalate_cons_cons, ih q, map_cons, intercalate_cons_cons]
    cases ps <;> simp [intercalate_cons_cons]

/-- A space behind each comma belongs to the item that follows. -/
lemma pieces_intercalate_spaced (h : Items (p :: ps)) :
    pieces 0 false ((", ".toList).intercalate (p :: ps)) = p :: ps.map (' ' :: ·) := by
  rw [intercalate_spaced]
  refine pieces_intercalate ?_
  cases h with
  | last hp => exact .last hp
  | more hp hps => exact .more hp (hps.map fun q => stateAfter_blanks_append isBlanks_space q)

end KrlWorkbench.ListItem
