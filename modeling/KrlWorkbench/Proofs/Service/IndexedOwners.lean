import KrlWorkbench.Proofs.Service.CompletionItems

/-!
# Owners with an index

Two searches look for the owner in front of a point.  The cursor on a member goes back from the
point and over brackets, counting them, so it finds the owner behind whatever index
(`CursorWord.ownerOf_append`).  Completion searches from the left, and there an index ends with its
first closing bracket.  It finds the same owner if no bracket stands in the index and none is open
in front of the owner (`Completion.exists_find?_of_flat`), and nothing if an index stands in the
index (`Completion.find?_of_nested`).
-/

namespace KrlWorkbench

open List Code ScopeMark Text

variable {lead owner index rest s : Text}

namespace CursorWord

/-- What a character does to the nesting of indices. -/
def squareMark (c : Char) : ScopeMark :=
  if c = '[' then .opener else if c = ']' then .closer else .neither

/-- Nothing, or an index in whose text brackets are nested, outside strings and comments. -/
def IsIndex (index : Text) : Prop :=
  index = [] ∨ ∃ s, index = '[' :: (s ++ [']']) ∧ Nested (s.map squareMark) ∧ '"' ∉ s ∧ ';' ∉ s

/-- The name of an owner, perhaps of a system variable. -/
def IsOwner (owner : Text) : Prop :=
  IsRun (fun c => isNameStart c || c == '$') isNameOrDollar owner

/-- An owner and its index in code, with no part of a name in front of the owner. -/
structure StandsBehind (lead owner index : Text) : Prop where
  code : IsCode lead
  start : lead.getLast?.any LineRule.isNamePart = false
  owner : IsOwner owner
  index : IsIndex index

/-- Brackets that are nested are passed over on the way back. -/
lemma beforeBracket_append {t : Text} {d e : Nat}
    (h : depthAfter d (t.map fun c => (squareMark c).turned) = some e) :
    beforeBracket (d + 1) (t ++ rest) = beforeBracket (e + 1) rest := by
  induction t generalizing d with
  | nil =>
    obtain rfl : d = e := by simpa using h
    rfl
  | cons c t ih =>
    rw [map_cons, squareMark] at h
    by_cases hclose : c = ']'
    · subst hclose
      simpa [beforeBracket] using ih (by simpa [turned] using h)
    by_cases hopen : c = '['
    · subst hopen
      cases d with
      | zero => simp [turned] at h
      | succ d => simpa [beforeBracket] using ih (by simpa [turned] using h)
    · simp only [hclose, hopen, if_false, turned, depthAfter_neither] at h
      simpa [beforeBracket, hclose, hopen] using ih h

lemma isNamePart_of_isNameOrDollar {c : Char} (h : isNameOrDollar c = true) :
    LineRule.isNamePart c = true := by
  rw [isNameOrDollar, Bool.or_eq_true] at h
  rw [LineRule.isNamePart, Bool.or_eq_true]
  exact h.imp_left isWordChar_of_isNameChar

lemma forall_of_isRun {part : Char → Bool} (hpart : ∀ {c}, isNameOrDollar c = true → part c = true)
    (h : IsRun (fun c => isNameStart c || c == '$') part owner) : ∀ c ∈ owner, part c = true := by
  obtain ⟨c, rest, rfl, hc, hrest⟩ := h
  refine forall_mem_cons.mpr ⟨hpart ?_, hrest⟩
  rw [isNameOrDollar, Bool.or_eq_true]
  refine (Bool.or_eq_true_iff.mp hc).imp_left fun hstart => ?_
  have hname : isIdentifier [c] = true := by simp [isIdentifier, hstart]
  exact isNameChar_of_isIdentifier hname c mem_cons_self

/-- **The way back finds the owner**, whatever index stands behind it. -/
lemma ownerOf_append (h : StandsBehind lead owner index) :
    ownerOf (lead ++ (owner ++ index)).reverse = some owner := by
  have hchars : ∀ c ∈ owner.reverse, isNameOrDollar c = true :=
    fun c hc => forall_of_isRun id h.owner c (mem_reverse.mp hc)
  obtain ⟨last, front, hlast⟩ := exists_cons_of_ne_nil (l := owner.reverse) (by
    obtain ⟨c, rest, rfl, -⟩ := h.owner
    simp)
  have hback : beforeIndex (lead ++ (owner ++ index)).reverse = owner.reverse ++ lead.reverse := by
    rcases h.index with rfl | ⟨s, rfl, hs, -⟩
    · rw [append_nil, reverse_append, hlast, cons_append, beforeIndex]
      rintro _ hcons
      obtain rfl := (List.cons.inj hcons).1
      exact absurd (hchars ']' (by simp [hlast])) (by decide)
    · have hturned := depthAfter_turned (hs.depthAfter_eq 0)
      rw [← map_reverse, map_map] at hturned
      simp [beforeIndex, beforeBracket, beforeBracket_append (d := 0) (e := 0) hturned]
  have hlead : lead.reverse.head?.any isNameOrDollar = false := by
    rw [head?_reverse, Bool.eq_false_iff]
    intro hany
    obtain ⟨c, hc, hname⟩ := (Option.any_eq_true _ _).mp hany
    have hstart := h.start
    simp [hc, isNamePart_of_isNameOrDollar hname] at hstart
  rw [ownerOf, hback, (takeWhile_append_of_head hchars hlead).1, hlast]
  simp [← hlast]

/-- The owner of a member is what is found on the way back from its point. -/
lemma owner_between {name : Text} (hname : isIdentifier name = true) (before : Text) :
    (between ('.' :: before) name).bind (·.owner) = ownerOf before := by
  cases name with
  | nil => simp [isIdentifier] at hname
  | cons c name =>
    have hdigit := isDigit_of_isNameStart (Bool.and_eq_true_iff.mp hname).1
    simp [between, hdigit]

/-- An owner with its index and a point is code. -/
lemma StandsBehind.isCode (h : StandsBehind lead owner index)
    (hbreak : NoBreak (lead ++ (owner ++ index) ++ ['.'])) :
    IsCode (lead ++ (owner ++ index) ++ ['.']) := by
  rw [append_assoc] at hbreak ⊢
  refine h.code.append (isCode_of_forall fun c hc => ?_)
  have hnoBreak := hbreak c (mem_append_right _ hc)
  suffices hcode : c ≠ '"' ∧ c ≠ ';' from ⟨hcode.1, hcode.2, hnoBreak⟩
  rcases mem_append.mp hc with hc | hc
  · rcases mem_append.mp hc with hc | hc
    · have hname := forall_of_isRun id h.owner c hc
      constructor <;> rintro rfl <;> revert hname <;> decide
    · rcases h.index with rfl | ⟨s, rfl, -, hquote, hsemicolon⟩
      · cases hc
      · constructor <;> rintro rfl <;> simp [hquote, hsemicolon] at hc
  · obtain rfl := mem_singleton.mp hc
    decide

/-- Behind the last bracket that closes in a nested text none opens. -/
lemma exists_last_closer {d : Nat} (h : depthAfter d (s.map squareMark) = some 0) (hmem : '[' ∈ s) :
    ∃ u w, s = u ++ ']' :: w ∧ '[' ∉ w := by
  induction s generalizing d with
  | nil => simp at hmem
  | cons c s ih =>
    by_cases hs : '[' ∈ s
    · rw [map_cons, ← singleton_append] at h
      obtain ⟨_, -, hrest⟩ := exists_depthAfter_of_append h
      obtain ⟨u, w, rfl, hw⟩ := ih hrest hs
      exact ⟨c :: u, w, rfl, hw⟩
    · -- The bracket is the last one that opens, so what closes it is behind it.
      obtain rfl : '[' = c := by simpa [hs] using hmem
      rw [map_cons, squareMark, if_pos rfl, depthAfter_opener] at h
      obtain ⟨inner, below, heq, -⟩ := exists_closer_of_depthAfter h (Nat.zero_le d)
      obtain ⟨c, hc, hmark⟩ := mem_map.mp (show .closer ∈ s.map squareMark by simp [heq])
      rw [squareMark] at hmark
      split_ifs at hmark with _ hclose
      obtain ⟨u, w, rfl⟩ := append_of_mem (hclose ▸ hc)
      exact ⟨'[' :: u, w, rfl, by simp_all⟩

/-- Where no bracket opens none closes. -/
lemma notMem_of_depthAfter {e : Nat} (h : depthAfter 0 (s.map squareMark) = some e)
    (hopen : '[' ∉ s) : ']' ∉ s := by
  induction s with
  | nil => exact not_mem_nil
  | cons c s ih =>
    obtain ⟨hc, hs⟩ := not_or.mp (mem_cons.not.mp hopen)
    rw [map_cons, squareMark, if_neg (Ne.symm hc)] at h
    by_cases hclose : c = ']'
    · simp [hclose] at h
    · rw [if_neg hclose, depthAfter_neither] at h
      exact mem_cons.not.mpr (not_or.mpr ⟨Ne.symm hclose, ih h hs⟩)

end CursorWord

namespace Completion

open Pattern CursorWord

/-- What is found in front of a point at the end of a text. -/
lemma exists_of_find?_point {front : Text} {m : Match}
    (h : LineRule.memberAccess.find? (front ++ ['.']) = some m) :
    m.text 2 = [] ∧ ∃ a index, front = a ++ (m.text 1 ++ index) ∧
      IsRun (fun c => isNameStart c || c == '$') LineRule.isNamePart (m.text 1) ∧ IsFlat index ∧
      ∀ x y, a = x ++ y → y ≠ [] → LineRule.memberAccess.pattern.matchAt
        (Pattern.between x (y ++ (m.text 1 ++ index) ++ ['.'])) = none := by
  have htyped : m.text 2 = [] := by
    rw [text_of_find?_memberAccess h, rtakeWhile_concat_neg _ _ _ (by decide)]
  obtain ⟨a, index, heq, hname, hflat, -, hleft⟩ := exists_of_find?_memberAccess h
  rw [htyped, ← append_assoc, ← append_assoc] at heq
  exact ⟨htyped, a, index, by simpa using append_cancel_right heq, hname, hflat, by
    simpa [htyped] using hleft⟩

/-- A flat index that ends in front of a point, and the bracket that it begins with. -/
lemma exists_of_append_index {base a name index : Text}
    (hname : IsRun (fun c => isNameStart c || c == '$') LineRule.isNamePart name)
    (hflat : IsFlat index) (h : base ++ [']'] = a ++ (name ++ index)) :
    ∃ s, index = '[' :: (s ++ [']']) ∧ base = (a ++ name) ++ '[' :: s ∧ ']' ∉ s := by
  rcases hflat with rfl | ⟨s, rfl, hs⟩
  · have hne : name ≠ [] := by
      obtain ⟨c, rest, rfl, -⟩ := hname
      simp
    have hlast : name.getLast? = some ']' := by
      rw [← getLast?_append_of_ne_nil a hne, ← append_nil name, ← h, getLast?_concat]
    exact absurd (forall_of_isRun isNamePart_of_isNameOrDollar hname _ (mem_of_getLast? hlast))
      (by decide)
  · exact ⟨s, rfl, append_cancel_right (show _ ++ [']'] = _ ++ [']'] by simpa using h), hs⟩

/-- A point behind an owner and a flat index ends a match. -/
lemma isSome_matchAt_memberAccess (howner : IsOwner owner) (hflat : IsFlat index) (lead : Text) :
    (LineRule.memberAccess.pattern.matchAt
      (Pattern.between lead (owner ++ index ++ ['.']))).isSome = true := by
  have hindex : ∀ here v, ∃ found,
      Fits (option (char '[' ++ .many (· != ']') ++ char ']')) here index v found := by
    intro here v
    rcases hflat with rfl | ⟨s, rfl, hs⟩
    · exact ⟨_, .altRight (.empty _ _)⟩
    · have hs' : ∀ c ∈ s, (c != ']') = true := fun c hc => bne_iff_ne.mpr fun h => hs (h ▸ hc)
      exact ⟨_, .altLeft (.seq (.seq (.one _ rfl _) (.many _ hs' _)) (.one _ rfl _))⟩
  obtain ⟨c, rest, rfl, hc, hrest⟩ := howner
  obtain ⟨found, hindex⟩ := hindex _ _
  have hfits : LineRule.memberAccess.pattern.Fits
      (Pattern.between lead ([c] ++ rest ++ index ++ ['.'])) _ [] _ :=
    .seq (.seq (.seq (.seq (.group 1 (.seq (.one _ hc _)
      (.many _ (fun d hd => isNamePart_of_isNameOrDollar (hrest d hd)) _))) hindex)
      (.one _ (c := '.') rfl _)) (.group 2 (.many _ (u := []) (by simp) _))) (.textEnd _)
  exact isSome_run_of_fits hfits (by simp [Pattern.between]) rfl

lemma rtakeWhile_append_of_forall {p : Char → Bool} {a b : Text} (h : ∀ c ∈ b, p c = true) :
    (a ++ b).rtakeWhile p = a.rtakeWhile p ++ b := by
  have hb : ∀ c ∈ b.reverse, p c = true := fun c hc => h c (mem_reverse.mp hc)
  rw [rtakeWhile, reverse_append, takeWhile_append_of_pos hb, reverse_append, reverse_reverse,
    rtakeWhile]

/-- Of two flat indices at the end of one text both begin with the same bracket, if none opens in
the first and none is open in front of it. -/
lemma eq_of_append_index {a name index' : Text} (howner : IsOwner owner) (hflat : IsFlat index)
    (htail : '[' ∉ index.tail) (hopen : index ≠ [] → '[' ∉ lead.rtakeWhile (· != ']'))
    (hname : IsRun (fun c => isNameStart c || c == '$') LineRule.isNamePart name)
    (hflat' : IsFlat index') (h : lead ++ (owner ++ index) = a ++ (name ++ index')) :
    lead ++ owner = a ++ name ∧ index = index' := by
  have hchars : ∀ c ∈ owner, isNameOrDollar c = true := forall_of_isRun id howner
  have howner' : IsRun (fun c => isNameStart c || c == '$') LineRule.isNamePart owner := by
    obtain ⟨c, rest, rfl, hc, hrest⟩ := howner
    exact ⟨c, rest, rfl, hc, fun d hd => isNamePart_of_isNameOrDollar (hrest d hd)⟩
  rcases hflat with rfl | ⟨s, rfl, hs⟩
  · rcases hflat' with rfl | ⟨s', rfl, -⟩
    · exact ⟨by simpa using h, rfl⟩
    · have hbase : (a ++ name ++ '[' :: s') ++ [']'] = lead ++ (owner ++ []) := by
        simpa using h.symm
      obtain ⟨_, hnil, -⟩ := exists_of_append_index howner' (.inl rfl) hbase
      cases hnil
  have hbase : (lead ++ owner ++ '[' :: s) ++ [']'] = a ++ (name ++ index') := by simpa using h
  obtain ⟨s', rfl, hcut, hs'⟩ := exists_of_append_index hname hflat' hbase
  rcases append_eq_append_iff.mp hcut with ⟨z, hz, hrest⟩ | ⟨z, hz, hrest⟩
  · cases z with
    | nil => exact ⟨by simpa using hz.symm, by simpa using hrest⟩
    | cons c z =>
      -- The bracket that is found would stand in the index.
      obtain ⟨rfl, rfl⟩ := List.cons.inj hrest
      simp at htail
  · cases z with
    | nil => exact ⟨by simpa using hz, by simpa using hrest.symm⟩
    | cons c z =>
      -- The bracket that is found would be open in front of the owner.
      obtain ⟨rfl, rfl⟩ := List.cons.inj hrest
      have hback := congrArg (rtakeWhile (· != ']')) hz
      rw [rtakeWhile_append_of_forall, rtakeWhile_append_of_forall] at hback
      · have hmem : '[' ∈ lead.rtakeWhile (· != ']') ++ owner := by simp [hback]
        rcases mem_append.mp hmem with hmem | hmem
        · exact absurd hmem (hopen (by simp))
        · exact absurd (hchars _ hmem) (by decide)
      · refine forall_mem_cons.mpr ⟨rfl, fun d hd => bne_iff_ne.mpr fun h => hs' ?_⟩
        exact mem_append_left _ (h ▸ hd)
      · intro d hd
        refine bne_iff_ne.mpr fun h => absurd (hchars d hd) ?_
        rw [h]
        decide

/-- **A flat index is read alike** by the search from the left. -/
lemma exists_find?_of_flat (h : StandsBehind lead owner index) (htail : '[' ∉ index.tail)
    (hopen : index ≠ [] → '[' ∉ lead.rtakeWhile (· != ']')) :
    ∃ m, LineRule.memberAccess.find? (lead ++ (owner ++ index) ++ ['.']) = some m ∧
      m.text 1 = owner ∧ m.text 2 = [] := by
  have hflat : IsFlat index := by
    refine h.index.imp_right ?_
    rintro ⟨s, rfl, hs, -⟩
    exact ⟨s, rfl, notMem_of_depthAfter (hs.depthAfter_eq 0) fun hmem => htail (by simp [hmem])⟩
  have hmatch := isSome_matchAt_memberAccess h.owner hflat lead
  obtain ⟨m, hm⟩ := Option.isSome_iff_exists.mp (isIn_of_matchAt hmatch)
  rw [← append_assoc] at hm
  obtain ⟨htyped, a, index', heq, hname, hflat', hleft⟩ := exists_of_find?_point hm
  obtain ⟨hfront, rfl⟩ := eq_of_append_index h.owner hflat htail hopen hname hflat' heq
  refine ⟨m, hm, ?_, htyped⟩
  -- No part of a name stands in front of the owner, and no match begins further left.
  rcases append_eq_append_iff.mp hfront with ⟨z, rfl, hz⟩ | ⟨y, rfl, hy⟩
  · by_cases hnil : z = []
    · rw [hz, hnil, nil_append]
    · have hnone := hleft lead z rfl hnil
      rw [← append_assoc z, ← hz] at hnone
      rw [hnone] at hmatch
      cases hmatch
  · rcases eq_nil_or_concat y with rfl | ⟨front, c, rfl⟩
    · exact hy
    · have hc := forall_of_isRun isNamePart_of_isNameOrDollar hname c (by simp [hy])
      have hstart := h.start
      simp [hc] at hstart

/-- **An index in an index hides the owner** from the search from the left. -/
lemma find?_of_nested (hs : Nested (s.map squareMark)) (hmem : '[' ∈ s) (lead : Text) :
    LineRule.memberAccess.find? (lead ++ '[' :: (s ++ [']']) ++ ['.']) = none := by
  by_contra hsome
  obtain ⟨m, hm⟩ := Option.ne_none_iff_exists'.mp hsome
  obtain ⟨-, a, index', heq, hname, hflat, -⟩ := exists_of_find?_point hm
  have hbase : (lead ++ '[' :: s) ++ [']'] = a ++ (m.text 1 ++ index') := by simpa using heq
  obtain ⟨s', -, hcut, hs'⟩ := exists_of_append_index hname hflat hbase
  obtain ⟨u, w, rfl, hw⟩ := exists_last_closer (hs.depthAfter_eq 0) hmem
  -- The index that is found begins behind the last inner closing bracket or runs over it.
  have hcut' : (lead ++ '[' :: u) ++ ']' :: w = (a ++ m.text 1) ++ '[' :: s' := by simpa using hcut
  rcases append_eq_append_iff.mp hcut' with ⟨z, -, hz⟩ | ⟨z, -, hz⟩
  · cases z with
    | nil => simp at hz
    | cons _ z => exact hw (by simp [(List.cons.inj hz).2])
  · cases z with
    | nil => simp at hz
    | cons _ z => exact hs' (by simp [(List.cons.inj hz).2])

/-- Where nothing has been typed every member is offered. -/
lemma map_label_memberItems (p : Position) (table : SymbolTable) (view : WorkspaceView)
    (owner : Text) : (memberItems ⟨p, []⟩ table view owner).map (·.label) =
      ((ownerType? table view owner).bind (membersOfType? table view)).getD [] := by
  rw [memberItems]
  cases ownerType? table view owner with
  | none => rfl
  | some typeName =>
    have haccepts : ∀ name ∈ (membersOfType? table view typeName).getD [],
        Request.accepts ⟨p, []⟩ name = true := by
      intro name _
      simp [Request.accepts, sameName]
    simp [filter_eq_self.mpr haccepts, Function.comp_def]

/-- Names always include the system variables, and no member is one. -/
lemma nameItems_ne_memberItems (p : Position) (hashed : Bool) (table : SymbolTable)
    (view : WorkspaceView) (owner : Text) :
    nameItems ⟨p, []⟩ hashed table view ≠ memberItems ⟨p, []⟩ table view owner := by
  intro heq
  have hmembers : ∀ item ∈ memberItems ⟨p, []⟩ table view owner, item.kind = .field := by
    intro item hitem
    rw [memberItems] at hitem
    split at hitem
    · cases hitem
    · obtain ⟨_, -, rfl⟩ := mem_map.mp hitem
      rfl
  obtain ⟨v, hv⟩ : ∃ v, v ∈ SystemVariable.all := exists_mem_of_ne_nil _ (by decide +kernel)
  have haccepts : Request.accepts ⟨p, []⟩ v.name.toList = true := by
    simp [Request.accepts, sameName]
  obtain ⟨item, hitem, hkind⟩ : ∃ item ∈ systemItems ⟨p, []⟩, item.kind = .var := by
    rw [systemItems]
    exact ⟨_, mem_map_of_mem (mem_filter.mpr ⟨hv, haccepts⟩), rfl⟩
  have hname : item ∈ nameItems ⟨p, []⟩ hashed table view := by
    simp only [nameItems, mem_append]
    exact .inl (.inr hitem)
  rw [heq] at hname
  cases hkind.symm.trans (hmembers item hname)

end Completion

/-- Behind a point in code nothing has been typed. -/
lemma complete_of_point {text front : Text} {n : Nat} (view : WorkspaceView)
    (hline : text.lines[n]? = some (front ++ ['.'] ++ rest)) (hcode : IsCode (front ++ ['.'])) :
    complete text ⟨n, unitLength (front ++ ['.'])⟩ view =
      match LineRule.memberAccess.find? (front ++ ['.']) with
      | some found => Completion.memberItems ⟨⟨n, unitLength (front ++ ['.'])⟩, found.text 2⟩
          (SymbolTable.collect text) view (found.text 1)
      | none => Completion.nameItems ⟨⟨n, unitLength (front ++ ['.'])⟩, []⟩ false
          (SymbolTable.collect text) view := by
  have hstring : inString (front ++ ['.']) (byteLength (front ++ ['.'])) = false := by
    simpa [hcode.insideAfter_eq] using inString_eq (front ++ ['.']) []
  have htyped : CursorWord.typedBefore (front ++ ['.']) (byteLength (front ++ ['.'])) = [] := by
    rw [CursorWord.typedBefore, takeBytes_byteLength, reverse_concat,
      takeWhile_cons_of_neg (by decide), reverse_nil]
  rw [complete, Place.at?_of_lines hline]
  dsimp only
  rw [Place.before_mk, hcode.commentStart_eq, hstring, htyped, length_nil, Nat.sub_zero,
    take_length, getLast?_concat]
  rfl

/-- **Members behind an owner with an index.**  In code, directly behind an owner, its index and a
point, the cursor on a member has that owner, whatever the index.  The members of the owner's type,
and nothing if it has none, are offered exactly if no index stands in the index; otherwise the owner
is not seen, and names are offered as anywhere else.  No bracket may be open in front of an owner
with an index, since the search would begin with the name in front of that bracket. -/
theorem complete_behind_owner {text : Text} {n : Nat} (view : WorkspaceView)
    (hline : text.lines[n]? = some (lead ++ (owner ++ index) ++ ['.'] ++ rest))
    (h : CursorWord.StandsBehind lead owner index)
    (hopen : index ≠ [] → '[' ∉ lead.rtakeWhile (· != ']')) :
    let before := lead ++ (owner ++ index) ++ ['.']
    let p : Position := ⟨n, unitLength before⟩
    let table := SymbolTable.collect text
    (∀ u v rest, isIdentifier (u ++ v) = true → rest.head?.any isNameChar = false →
      (CursorWord.at? (before ++ (u ++ v ++ rest)) (byteLength (before ++ u))).bind (·.owner) =
        some owner) ∧
    (complete text p view = Completion.memberItems ⟨p, []⟩ table view owner ↔ '[' ∉ index.tail) ∧
    ('[' ∈ index.tail → complete text p view = Completion.nameItems ⟨p, []⟩ false table view) ∧
    (Completion.memberItems ⟨p, []⟩ table view owner).map (·.label) =
      ((ownerType? table view owner).bind (membersOfType? table view)).getD [] := by
  intro before p table
  have hcode : IsCode before :=
    h.isCode (noBreak_append.mp (noBreak_of_mem_lines (mem_of_getElem? hline))).1
  have hcomplete := complete_of_point view hline hcode
  -- With an index in the index the search for an owner finds nothing.
  have hnested : '[' ∈ index.tail →
      complete text p view = Completion.nameItems ⟨p, []⟩ false table view := by
    intro hmem
    rcases h.index with rfl | ⟨s, rfl, hs, -⟩
    · cases hmem
    · have hnone := Completion.find?_of_nested hs (by simpa using hmem) (lead ++ owner)
      rw [append_assoc lead owner] at hnone
      rw [hcomplete, hnone]
  refine ⟨fun u v rest hname hrest => ?_, ⟨fun heq hmem => ?_, fun hflat => ?_⟩, hnested,
    Completion.map_label_memberItems p table view owner⟩
  · have haround : IsAround before rest := ⟨by rw [getLast?_concat]; decide, hrest⟩
    rw [CursorWord.at?_of_name haround hname, reverse_concat, CursorWord.owner_between hname]
    exact CursorWord.ownerOf_append h
  · exact Completion.nameItems_ne_memberItems p false table view owner
      ((hnested hmem).symm.trans heq)
  · obtain ⟨m, hm, howner, htyped⟩ := Completion.exists_find?_of_flat h hflat hopen
    rw [hcomplete, hm]
    dsimp only
    rw [htyped, howner]

/-- A structure in an array, with a plain index and with an index in the index. -/
theorem complete_behind_owner_array :
    let text : Text := "STRUC cell INT v, w\nDECL cell a[3]\n  a[i + 1].\n  a[b[1]].".toList
    let table := SymbolTable.collect text
    (complete text ⟨2, 11⟩ {}).map (·.label) = ["v".toList, "w".toList] ∧
      complete text ⟨3, 10⟩ {} = Completion.nameItems ⟨⟨3, 10⟩, []⟩ false table {} := by
  intro text table
  have howner : CursorWord.IsOwner "a".toList := ⟨'a', [], rfl, by decide, by simp⟩
  have hplain : CursorWord.StandsBehind "  ".toList "a".toList "[i + 1]".toList :=
    ⟨by decide, by decide, howner,
      .inr ⟨"i + 1".toList, rfl, ScopeMark.nested_iff.mpr (by decide), by decide, by decide⟩⟩
  have hnested : CursorWord.StandsBehind "  ".toList "a".toList "[b[1]]".toList :=
    ⟨by decide, by decide, howner,
      .inr ⟨"b[1]".toList, rfl, ScopeMark.nested_iff.mpr (by decide), by decide, by decide⟩⟩
  have hlines :
      text.lines[2]? = some ("  ".toList ++ ("a".toList ++ "[i + 1]".toList) ++ ['.'] ++ []) ∧
        text.lines[3]? = some ("  ".toList ++ ("a".toList ++ "[b[1]]".toList) ++ ['.'] ++ []) := by
    decide +kernel
  obtain ⟨-, hmembers, -, hlabels⟩ :=
    complete_behind_owner {} hlines.1 hplain fun _ => by decide
  obtain ⟨-, -, hnames, -⟩ := complete_behind_owner {} hlines.2 hnested fun _ => by decide
  refine ⟨?_, hnames (by decide)⟩
  have hoffered : ((ownerType? table {} "a".toList).bind (membersOfType? table {})).getD [] =
      ["v".toList, "w".toList] := by
    decide +kernel
  rw [← hoffered, ← hlabels]
  exact congrArg _ (hmembers.mpr (by decide))

/-- The owner has a member, and it is not offered. -/
theorem complete_member_of_nested_index :
    let text : Text := "STRUC cell INT v\nDECL cell a[3]\na[b[1]].".toList
    let table := SymbolTable.collect text
    (ownerType? table {} "a".toList).bind (membersOfType? table {}) = some ["v".toList] ∧
      (complete text ⟨2, 8⟩ {}).map (·.label) ≠ ["v".toList] := by
  decide +kernel

end KrlWorkbench
