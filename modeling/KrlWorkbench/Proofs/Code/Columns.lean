import KrlWorkbench.Code.Block
import KrlWorkbench.Code.ItemList
import KrlWorkbench.Code.LineKind
import KrlWorkbench.Proofs.Code.Tokens
import KrlWorkbench.Proofs.Pattern.Fits
import KrlWorkbench.Proofs.Text.Trim

/-!
# Columns stay inside the code

Every column that a rule, a token, a list of names or a block keyword reports is a column of the
code that was read, and so is the end of what it reports.  Whoever turns such columns into a range
of the document therefore never looks past the code of the line.
-/

namespace KrlWorkbench

open List Text

variable {lead : Text} {kind : BlockKind} {rule : LineRule} {events : List BlockEvent}
  {ps types : List Text} {found m : Match} {line : Nat} {parts : TypedList}
variable {code : Text} {e : BlockEvent} {item : ListItem}

/-! ## Trimmed parts -/

namespace Text

lemma indentBytes_le (text : Text) : indentBytes text ≤ byteLength text :=
  byteLength_le_of_isPrefix (List.takeWhile_prefix _)

/-- The blanks in front of a text and the trimmed form of one of its beginnings fit into it. -/
lemma indentBytes_add_byteLength_trim_le {text : Text} (h : lead <+: text) :
    indentBytes text + byteLength (trim lead) ≤ byteLength text := by
  by_cases hblank : trimStart lead = []
  · have htrim : trim lead = [] := by
      have hle := trim_prefix_trimStart lead
      rw [hblank] at hle
      exact prefix_nil.mp hle
    rw [htrim]
    simpa using indentBytes_le text
  · have htrim := byteLength_le_of_isPrefix (trim_prefix_trimStart lead)
    have hlead := congrArg byteLength (takeWhile_append_trimStart lead)
    rw [byteLength_append] at hlead
    have hle := byteLength_le_of_isPrefix h
    rw [indentBytes, takeWhile_isBlank_of_isPrefix h hblank]
    omega

end Text

/-! ## Lists of names -/

namespace ListItem

/-- The depth behind a text and whether a string is open there, if no comma of the text separates
items. -/
def stateAfter (depth : Nat) (inside : Bool) : Text → Option (Nat × Bool)
  | [] => some (depth, inside)
  | c :: rest =>
    if c == '"' then stateAfter depth (!inside) rest
    else if inside then stateAfter depth inside rest
    else if isOpening c then stateAfter (depth + 1) inside rest
    else if isClosing c then stateAfter (depth - 1) inside rest
    else if c == ',' && depth == 0 then none
    else stateAfter depth inside rest

/-- The depth behind a character: brackets count outside strings, and a closing one too many leaves
the depth at zero. -/
def nextDepth (depth : Nat) (inside : Bool) (c : Char) : Nat :=
  if inside then depth
  else if isOpening c then depth + 1
  else if isClosing c then depth - 1
  else depth

/-- A character separates items, or both readings go on from the state that it leads to. -/
lemma step_cases (depth : Nat) (inside : Bool) (c : Char) :
    (c = ',' ∧ depth = 0 ∧ inside = false) ∨
      ∀ rest, pieces depth inside (c :: rest) =
          consPiece c (pieces (nextDepth depth inside c) (Code.insideAfter inside [c]) rest) ∧
        stateAfter depth inside (c :: rest) =
          stateAfter (nextDepth depth inside c) (Code.insideAfter inside [c]) rest := by
  have hafter : Code.insideAfter inside [c] = if c == '"' then !inside else inside := rfl
  rw [hafter, nextDepth]
  by_cases hquote : c = '"'
  · subst hquote
    exact .inr fun rest => by simp [pieces, stateAfter, isOpening, isClosing]
  cases inside with
  | true => exact .inr fun rest => by simp [pieces, stateAfter, hquote]
  | false =>
    by_cases hopening : isOpening c = true
    · exact .inr fun rest => by simp [pieces, stateAfter, hquote, hopening]
    by_cases hclosing : isClosing c = true
    · exact .inr fun rest => by simp [pieces, stateAfter, hquote, hopening, hclosing]
    by_cases hcomma : c = ',' ∧ depth = 0
    · exact .inl ⟨hcomma.1, hcomma.2, rfl⟩
    · exact .inr fun rest => by simp [pieces, stateAfter, hquote, hopening, hclosing, hcomma]

lemma pieces_comma (rest : Text) : pieces 0 false (',' :: rest) = [] :: pieces 0 false rest := by
  rw [pieces]
  rfl

/-- What one character does, whatever follows: it joins the first piece, or it is a comma outside
strings and ends an empty one. -/
lemma pieces_cons_cases (depth : Nat) (inside : Bool) (c : Char) :
    (∃ depth', ∀ rest, pieces depth inside (c :: rest) =
        consPiece c (pieces depth' (Code.insideAfter inside [c]) rest)) ∨
      c = ',' ∧ inside = false ∧
        ∀ rest, pieces depth inside (c :: rest) = [] :: pieces depth false rest := by
  rcases step_cases depth inside c with ⟨rfl, rfl, rfl⟩ | hstep
  · exact .inr ⟨rfl, rfl, pieces_comma⟩
  · exact .inl ⟨_, fun rest => (hstep rest).1⟩

lemma consPiece_ne_nil (c : Char) (ps : List Text) : consPiece c ps ≠ [] := by
  cases ps <;> simp [consPiece]

lemma pieces_ne_nil (depth : Nat) (inside : Bool) (list : Text) :
    pieces depth inside list ≠ [] := by
  cases list with
  | nil => simp [pieces]
  | cons c rest =>
    rcases pieces_cons_cases depth inside c with ⟨_, h⟩ | ⟨_, _, h⟩
    · rw [h]
      exact consPiece_ne_nil _ _
    · simp [h]

lemma intercalate_consPiece (c : Char) (h : ps ≠ []) :
    [','].intercalate (consPiece c ps) = c :: [','].intercalate ps := by
  match ps with
  | [p] => simp [consPiece]
  | p :: q :: ps => simp [consPiece, intercalate_cons_cons]

lemma intercalate_pieces (depth : Nat) (inside : Bool) (list : Text) :
    [','].intercalate (pieces depth inside list) = list := by
  induction list generalizing depth inside with
  | nil => simp [pieces]
  | cons c rest ih =>
    rcases pieces_cons_cases depth inside c with ⟨_, h⟩ | ⟨rfl, _, h⟩
    · rw [h, intercalate_consPiece c (pieces_ne_nil _ _ _), ih]
    · obtain ⟨p, ps, hps⟩ := exists_cons_of_ne_nil (pieces_ne_nil depth false rest)
      have hrest := ih depth false
      rw [h, hps, intercalate_cons_cons, ← hps, hrest]
      rfl

lemma inside_of_mem_withOffsets (h : item ∈ withOffsets (byteLength lead) ps) :
    Capture.Inside ⟨item.offset, item.text⟩ (lead ++ [','].intercalate ps) := by
  induction ps generalizing lead with
  | nil => simp [withOffsets] at h
  | cons p ps ih =>
    rcases mem_cons.mp h with rfl | h
    · cases ps with
      | nil => exact ⟨lead, [], by simp, rfl⟩
      | cons q ps => exact ⟨lead, [','] ++ [','].intercalate (q :: ps), by
          simp [intercalate_cons_cons], rfl⟩
    · have hlead : byteLength lead + byteLength p + 1 = byteLength (lead ++ (p ++ [','])) := by
        simp [Nat.add_assoc]
        rfl
      rw [hlead] at h
      cases ps with
      | nil => simp [withOffsets] at h
      | cons q ps =>
        have hinside := ih h
        simpa using hinside

lemma map_text_withOffsets (offset : Nat) (ps : List Text) :
    (withOffsets offset ps).map (·.text) = ps := by
  induction ps generalizing offset with
  | nil => rfl
  | cons p ps ih => rw [withOffsets, map_cons, ih]

lemma map_text_split (list : Text) : (split list).map (·.text) = pieces 0 false list :=
  map_text_withOffsets 0 _

lemma inside_of_mem_split {list : Text} (h : item ∈ split list) :
    Capture.Inside ⟨item.offset, item.text⟩ list := by
  have hinside : Capture.Inside ⟨item.offset, item.text⟩
      ([] ++ [','].intercalate (pieces 0 false list)) := inside_of_mem_withOffsets h
  rwa [nil_append, intercalate_pieces] at hinside

lemma splitInitialFrom_isPrefix (depth : Int) (inside : Bool) (item : Text) :
    (splitInitialFrom depth inside item).1 <+: item := by
  induction item generalizing depth inside with
  | nil => simp [splitInitialFrom]
  | cons c rest ih =>
    rw [splitInitialFrom]
    split
    case isTrue => exact nil_prefix
    case isFalse => exact (cons_prefix_cons).mpr ⟨rfl, ih _ _⟩

lemma stripIndex_isPrefix (name : Text) : stripIndex name <+: name := by
  rw [stripIndex]
  split
  case isTrue => exact (trimEnd_isPrefix _).trans (List.takeWhile_prefix _)
  case isFalse => exact prefix_rfl

lemma nameOffset_add_byteLength_name_le (item : ListItem) :
    item.nameOffset + byteLength item.name ≤ item.offset + byteLength item.text := by
  have hname : byteLength item.name ≤ byteLength (trim (splitInitial item.text).1) :=
    byteLength_le_of_isPrefix (stripIndex_isPrefix _)
  have htrim := indentBytes_add_byteLength_trim_le (splitInitialFrom_isPrefix 0 false item.text)
  rw [nameOffset]
  change byteLength item.name ≤ byteLength (trim (splitInitialFrom 0 false item.text).1) at hname
  omega

end ListItem

lemma TypedList.inside_of_ofCode? (h : TypedList.ofCode? types code = some parts) :
    Capture.Inside ⟨parts.listStart, parts.list⟩ code := by
  simp only [TypedList.ofCode?, Option.bind_eq_bind, Option.bind_eq_some_iff] at h
  obtain ⟨found, hfound, list, hlist, h⟩ := h
  split_ifs at h
  obtain rfl := Option.some.inj h
  exact (Pattern.matches_of_find? hfound).inside.group? hlist

lemma TypedList.name_stop_le
    (h : TypedList.ofCode? types code = some parts) (hitem : item ∈ ListItem.split parts.list) :
    parts.listStart + item.nameOffset + byteLength item.name ≤ byteLength code := by
  have hlist := (TypedList.inside_of_ofCode? h).stop_le
  have htext := (ListItem.inside_of_mem_split hitem).stop_le
  have hname := item.nameOffset_add_byteLength_name_le
  simp only [Capture.stop] at hlist htext
  omega

/-! ## Tokens -/

lemma Token.start_add_le_of_mem_tokens {token : Token} (h : token ∈ tokens code) :
    token.start + (token.stop - token.start) ≤ byteLength code := by
  have hstop : token.stop = token.capture.stop := (stop_eq_and_isIdentifier_of_mem_scan h).1
  have hle := (placed_tokens code).stop_le (mem_map_of_mem h)
  have hstart : token.start ≤ token.capture.stop := Nat.le_add_right _ _
  omega

/-! ## Block keywords -/

namespace BlockKind

lemma length_le_minLength (kind : BlockKind) :
    kind.opener.length ≤ kind.openerPattern.minLength ∧
      kind.closer.length ≤ kind.closerPattern.minLength := by
  cases kind <;> decide

lemma opener_stop_le (h : kind.openerPattern.find? code = some m) :
    m.whole.stop - kind.opener.length + kind.opener.length ≤ byteLength code := by
  have hm := Pattern.matches_of_find? h
  have hlen := kind.length_le_minLength.1.trans hm.minLength_le
  have hstop := hm.inside.whole.stop_le
  simp only [Capture.stop] at hstop ⊢
  omega

lemma closer_stop_le (h : m ∈ kind.closerPattern.occurrences code) :
    m.whole.start + kind.closer.length ≤ byteLength code := by
  have hm := Pattern.matches_of_mem_occurrences h
  have hlen := kind.length_le_minLength.2.trans hm.minLength_le
  have hstop := hm.inside.whole.stop_le
  simp only [Capture.stop] at hstop
  omega

end BlockKind

namespace BlockEvent

lemma mem_insertByColumn {event : BlockEvent} :
    e ∈ insertByColumn event events ↔ e = event ∨ e ∈ events := by
  induction events with
  | nil => simp [insertByColumn]
  | cons first rest ih =>
    rw [insertByColumn]
    split
    case isTrue => simp
    case isFalse =>
      rw [mem_cons, ih, mem_cons]
      tauto

lemma mem_foldl_insertByColumn {sorted : List BlockEvent} :
    e ∈ events.foldl (fun sorted event => insertByColumn event sorted) sorted ↔
      e ∈ events ∨ e ∈ sorted := by
  induction events generalizing sorted with
  | nil => simp
  | cons event rest ih =>
    rw [foldl_cons, ih, mem_insertByColumn, mem_cons]
    tauto

lemma mem_ofLine :
    e ∈ ofLine code line ↔ ∃ kind, kind ∈ BlockKind.all ∧ e ∈ ofKind code line kind := by
  rw [ofLine, mem_foldl_insertByColumn]
  simp

/-- A block keyword stands in the code of its line. -/
lemma column_add_length_le (h : e ∈ ofLine code line) :
    e.line = line ∧ e.column + e.keyword.length ≤ byteLength code := by
  obtain ⟨kind, -, h⟩ := mem_ofLine.mp h
  rcases mem_append.mp h with h | h
  · split at h
    case h_1 m hm =>
      obtain rfl := mem_singleton.mp h
      exact ⟨rfl, BlockKind.opener_stop_le hm⟩
    case h_2 => simp at h
  · obtain ⟨m, hm, rfl⟩ := mem_map.mp h
    exact ⟨rfl, BlockKind.closer_stop_le hm⟩

end BlockEvent

/-! ## Statements -/

namespace LineRule

open Pattern

lemma group_stop_le {i : Nat} {part : Capture}
    (h : (rule.find? code).bind (·.group? i) = some part) :
    part.start + byteLength part.text ≤ byteLength code := by
  obtain ⟨found, hfound, hpart⟩ := Option.bind_eq_some_iff.mp h
  exact ((matches_of_find? hfound).inside.group? hpart).stop_le

lemma globalKeyword_stop_le (h : LineRule.globalKeyword.find? code = some found) :
    found.whole.start + "GLOBAL".length ≤ byteLength code := by
  have hm := matches_of_find? h
  have hlen : "GLOBAL".length ≤ byteLength found.whole.text :=
    Nat.le_trans (by decide) hm.minLength_le
  have hstop := hm.inside.whole.stop_le
  simp only [Capture.stop] at hstop
  omega

lemma indentBytes_add_sub_le (h : rule.find? code = some found) :
    indentBytes code + (found.whole.stop - indentBytes code) ≤ byteLength code := by
  have hstop := (matches_of_find? h).inside.whole.stop_le
  have hindent := indentBytes_le code
  omega

lemma blank_of_fits_indent {here : Cursor} {u v : Text} {found : Groups}
    (h : Fits indent here u v found) :
    here.before = [] ∧ (∀ c ∈ u, isBlank c = true) ∧ found = [] := by
  obtain ⟨u, u', f, f', rfl, rfl, hstart, hblanks⟩ := h.exists_of_append
  obtain ⟨hblank, rfl⟩ := hblanks.forall_of_many
  cases hstart with
  | textStart hbefore _ => exact ⟨hbefore, hblank, rfl⟩

lemma indentBytes_add_halt_le (h : LineRule.halt.holds code = true) :
    indentBytes code + "HALT".length ≤ byteLength code := by
  obtain ⟨m, hm⟩ := Option.isSome_iff_exists.mp h
  obtain ⟨a, w, v, rfl, -, hfits⟩ := matches_of_find? hm
  obtain ⟨u, tail, _, _, rfl, -, hfits, -⟩ := hfits.exists_of_append
  obtain ⟨lead, kw, _, _, rfl, -, hindent, hword⟩ := hfits.exists_of_append
  obtain ⟨hbefore, hblank, -⟩ := blank_of_fits_indent hindent
  obtain ⟨hsame, -⟩ := hword.sameWord_of_word
  have hlen := length_eq_of_sameWord hsame
  have hwordChars := isWordChar_of_sameWord (by decide) hsame
  obtain rfl : a = [] := by simpa [between] using hbefore
  have hbytes := length_le_byteLength kw
  rw [hlen] at hbytes
  obtain ⟨c, rest, rfl⟩ := exists_cons_of_length_pos (l := kw) (by rw [hlen]; decide)
  have hsolid := isBlank_of_isWordChar (hwordChars c mem_cons_self)
  have hindent : ([] ++ (lead ++ c :: rest ++ tail ++ v)).takeWhile isBlank = lead := by
    simp [takeWhile_append_of_pos hblank, hsolid]
  rw [indentBytes, hindent]
  simp only [nil_append, byteLength_append]
  change "HALT".length ≤ _ at hbytes
  omega

end LineRule
end KrlWorkbench
