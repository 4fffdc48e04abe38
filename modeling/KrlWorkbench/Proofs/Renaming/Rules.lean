import KrlWorkbench.Proofs.Renaming.Lead
import KrlWorkbench.Proofs.Renaming.Parts
import KrlWorkbench.Proofs.Renaming.Tracking

/-!
# The declaring rules on a renamed line

The rules for declarations, signals, headers and type definitions fit a line exactly if they fit the
renamed line, and what they report is renamed (`LineRule.find?_renamed`).

All but one of them read names before something that no word begins with, and are tracked piece by
piece.  The rule for signals is different: behind the name anything may follow, even without a
gap.  There the longest way to read the name always leads to a match, so the search never tries
another (`run_signalTail`).
-/

namespace KrlWorkbench

open List Text

variable {x y : Text} {c : Char} {f : Char → Bool} {links : List Link}

/-- Two names of the user, neither of them reserved. -/
structure ProperNames (x y : Text) : Prop where
  old : isIdentifier x = true
  new : isIdentifier y = true
  reserved : ∀ key ∈ Keyword.names ++ BuiltinType.names,
    sameWord key x = false ∧ sameWord key y = false

namespace LineRule

open Pattern

/-! ## Classes of characters -/

lemma isNameStart_lowerAscii (hc : isAscii c = true) : isNameStart (lowerAscii c) = isNameStart c :=
  forall_of_isAscii (P := fun c => isNameStart (lowerAscii c) = isNameStart c) (by decide) hc

/-- What equals the first letter of a name up to case may begin a name. -/
lemma anyCaseInitial_of_sameFold {d : Char} (hd : isNameStart d = true) (h : sameFold d c = true) :
    anyCaseInitial c = true := by
  have hname : isNameChar d = true := by
    simp only [isNameStart, isNameChar, Bool.or_eq_true] at hd ⊢
    tauto
  rcases sameFold_cases (isAscii_of_isNameChar hname) h with ⟨hc, hlower⟩ | ⟨rfl, -⟩ | ⟨rfl, -⟩
  · have hstart : isNameStart c = true := by
      rw [← isNameStart_lowerAscii hc, hlower, isNameStart_lowerAscii (isAscii_of_isNameChar hname)]
      exact hd
    have hall : isNameStart c = true → anyCaseInitial c = true :=
      forall_of_isAscii (P := fun c => isNameStart c = true → anyCaseInitial c = true)
        (by decide +kernel) hc
    exact hall hstart
  · decide +kernel
  · decide +kernel

lemma anyCaseInitial_of_sameWord {v : Text} (hx : isIdentifier x = true)
    (h : sameWord x (c :: v) = true) : anyCaseInitial c = true := by
  cases x with
  | nil => simp [isIdentifier] at hx
  | cons d x =>
    simp only [isIdentifier, Bool.and_eq_true] at hx
    exact anyCaseInitial_of_sameFold hx.1 (sameWord_cons_cons.mp h).1

lemma isSolid_of_isWordChar (h : isWordChar c = true) : isSolid c = true := by
  simp [isSolid, isBlank_of_isWordChar h]

lemma isInLine_of_isWordChar (h : isWordChar c = true) : isInLine c = true := by
  simpa [isInLine] using ne_of_isWordChar (by decide) h

lemma isNamePart_of_isWordChar (h : isWordChar c = true) : isNamePart c = true := by
  simp [isNamePart, h]

lemma beq_of_isWordChar {d : Char} (hd : isWordChar d = false) (h : isWordChar c = true) :
    (c == d) = false := by
  simpa using ne_of_isWordChar hd h

/-! ## Pieces of rules -/

/-- The keywords of the declaring rules. -/
def declaringKeywords : List String :=
  ["GLOBAL", "CONST", "DECL", "SIGNAL", "DEF", "DEFFCT", "STRUC", "ENUM"]

lemma forall_declaringKeywords : ∀ k ∈ declaringKeywords,
    k.toList ∈ Keyword.names ∧ k.toList ≠ [] ∧ ∀ c ∈ k.toList, isNameChar c = true := by
  decide +kernel

section Tracked

/-- Links that rename one proper name to another. -/
structure Renames (x y : Text) (links : List Link) : Prop where
  aligned : Aligned x y links
  names : ProperNames x y

lemma Renames.isWord (h : Renames x y links) : IsWord y :=
  isWord_of_isIdentifier h.names.new

variable (h : Renames x y links)
include h

lemma tracks_indent : Tracks links false indent :=
  (tracks_textStart h.aligned h.isWord).append
    (tracks_many h.aligned h.isWord fun _ => isBlank_of_isWordChar)

lemma tracks_gap : Tracks links false gap :=
  (tracks_one h.aligned h.isWord fun _ => isBlank_of_isWordChar).append
    (tracks_many h.aligned h.isWord fun _ => isBlank_of_isWordChar)

lemma tracks_keyword {k : String} (hk : k ∈ declaringKeywords) : Tracks links true (keyword k) := by
  obtain ⟨hmem, hne, hchars⟩ := forall_declaringKeywords k hk
  obtain ⟨hx, hy⟩ := h.names.reserved k.toList (mem_append_left _ hmem)
  exact tracks_word h.aligned h.isWord hchars hne hx hy

omit h in
lemma refuses_gap : Refuses gap :=
  (refuses_one fun _ => isBlank_of_isWordChar).append

lemma tracks_maybe (i : Nat) {k : String} (hk : k ∈ declaringKeywords) :
    Tracks links false (maybe i k) :=
  (((tracks_keyword h hk).group i).append_refusing (tracks_gap h) refuses_gap).option

/-- The front of a line: a keyword, and perhaps `GLOBAL` before it. -/
lemma tracks_lead {k : String} (hk : k ∈ declaringKeywords) :
    Tracks links false (indent ++ maybe 1 "GLOBAL" ++ keyword k ++ gap) :=
  (((tracks_indent h).append (tracks_maybe h 1 (by decide))).append
    (tracks_keyword h hk)).append_refusing (tracks_gap h) refuses_gap

lemma tracks_skip {k : String} (hk : k ∈ declaringKeywords) : Tracks links false (skip k) :=
  ((tracks_keyword h hk).append_refusing (tracks_gap h) refuses_gap).option

/-- Names of the rules, which differ in what they may hold besides word characters. -/
lemma tracks_initial {f₀ f : Char → Bool} (hf : ∀ c, isWordChar c = true → f c = true)
    (hf₀ : ∀ c, anyCaseInitial c = true → f₀ c = true) :
    Tracks links true (.one f₀ ++ .many f) := by
  refine tracks_name h.aligned h.isWord hf ?_ ?_
  · intro c v hv
    exact hf₀ c (anyCaseInitial_of_sameWord h.names.old hv)
  · rintro c v rfl
    exact hf₀ c (anyCaseInitial_of_sameWord h.names.new (sameWord_refl _))

lemma tracks_ruleName : Tracks links true name :=
  tracks_initial h (fun _ h => h) fun _ h => h

lemma tracks_parameters (i : Nat) : Tracks links false (parameters i) := by
  have hopen : Tracks links false (blanks ++ char '(') :=
    (tracks_many h.aligned h.isWord fun _ => isBlank_of_isWordChar).append
      (tracks_one h.aligned h.isWord fun _ => beq_of_isWordChar (by decide))
  have hlist : Tracks links true (.group i (.many (· != ')'))) := by
    refine (tracks_many_word h.aligned h.isWord fun c hc => ?_).group i
    simpa using ne_of_isWordChar (by decide) hc
  exact (hopen.append hlist).append_refusing
    (tracks_one h.aligned h.isWord fun _ => beq_of_isWordChar (by decide))
    (refuses_one fun _ => beq_of_isWordChar (by decide))

omit h in
lemma refuses_parameters (i : Nat) : Refuses (parameters i) := by
  have hopen : Refuses (blanks ++ char '(') :=
    refuses_many_append (fun _ => isBlank_of_isWordChar)
      (refuses_one fun _ => beq_of_isWordChar (by decide))
  exact hopen.append.append

/-! ## Rules -/

lemma tracks_declaration : Tracks links false declaration.pattern := by
  have hlead : Tracks links false (indent ++ maybe 1 "GLOBAL" ++ maybe 2 "CONST" ++
      maybe 3 "DECL" ++ maybe 4 "GLOBAL" ++ maybe 5 "CONST") :=
    (((((tracks_indent h).append (tracks_maybe h 1 (by decide))).append
      (tracks_maybe h 2 (by decide))).append (tracks_maybe h 3 (by decide))).append
      (tracks_maybe h 4 (by decide))).append (tracks_maybe h 5 (by decide))
  have htype : Tracks links true systemName :=
    tracks_initial h (fun _ => isNamePart_of_isWordChar) fun _ hc => by simp [hc]
  have hlist : Tracks links true (.one isSolid ++ .many isInLine) := by
    refine tracks_name h.aligned h.isWord (fun _ => isInLine_of_isWordChar) ?_ ?_
    · intro c v hv
      exact isSolid_of_isWordChar ((isWord_of_sameName h.names.old hv).chars c mem_cons_self)
    · rintro c v rfl
      exact isSolid_of_isWordChar (h.isWord.chars c mem_cons_self)
  exact (((hlead.append (htype.group 6)).append_refusing (tracks_gap h)
    refuses_gap).append (hlist.group 7)).append_refusing (tracks_textEnd h.aligned h.isWord)
    refuses_textEnd

lemma tracks_routineHeader : Tracks links false routineHeader.pattern :=
  ((tracks_lead h (by decide)).append ((tracks_ruleName h).group 2)).append_refusing
    (tracks_parameters h 3) (refuses_parameters 3)

lemma tracks_functionHeader : Tracks links false functionHeader.pattern := by
  have htype : Tracks links true (.one (fun c => anyCaseInitial c || c == '$') ++
      .many fun c => isNamePart c || c == '[' || c == ']') :=
    tracks_initial h (fun _ hc => by simp [isNamePart_of_isWordChar hc]) fun _ hc => by simp [hc]
  exact ((((tracks_lead h (by decide)).append (htype.group 2)).append_refusing
    (tracks_gap h) refuses_gap).append ((tracks_ruleName h).group 3)).append_refusing
    (tracks_parameters h 4) (refuses_parameters 4)

lemma tracks_typeDefinition : Tracks links false typeDefinition.pattern := by
  have hlead : Tracks links false (indent ++ maybe 1 "GLOBAL" ++ skip "DECL" ++ maybe 2 "GLOBAL") :=
    (((tracks_indent h).append (tracks_maybe h 1 (by decide))).append
      (tracks_skip h (by decide))).append (tracks_maybe h 2 (by decide))
  have hkeyword : Tracks links true (anyKeyword ["STRUC", "ENUM"]) :=
    (tracks_keyword h (by decide)).alt (tracks_keyword h (by decide))
  have hmembers : Tracks links true (.many isInLine) :=
    tracks_many_word h.aligned h.isWord fun _ => isInLine_of_isWordChar
  exact (((((hlead.append (hkeyword.group 3)).append_refusing (tracks_gap h)
    refuses_gap).append ((tracks_ruleName h).group 4)).append_refusing
    (tracks_gap h) refuses_gap).append (hmembers.group 5)).append_refusing
    (tracks_textEnd h.aligned h.isWord) refuses_textEnd

end Tracked

/-! ## Signals -/

/-- A repetition is as long as it can be, if what follows accepts that. -/
lemma runMany_greedy {β : Type} {next : Cursor → Option β} {text : Text} {here : Cursor}
    {result : β} (hrest : here.rest = text)
    (h : next (here.skip (text.takeWhile f) (text.dropWhile f)) = some result) :
    runMany f next text here = some result := by
  induction text generalizing here with
  | nil => rwa [takeWhile_nil, dropWhile_nil, Cursor.skip_nil_eq hrest] at h
  | cons c rest ih =>
    rw [runMany_cons]
    split
    case isTrue hc =>
      rw [takeWhile_cons_of_pos hc, dropWhile_cons_of_pos hc] at h
      have hpast := @ih (here.past c rest) rfl
        (by rw [Cursor.past_eq_skip, Cursor.skip_skip]; exact h)
      rw [hpast, Option.some_or]
    case isFalse hc =>
      rwa [takeWhile_cons_of_neg hc, dropWhile_cons_of_neg hc, Cursor.skip_nil_eq hrest] at h

variable {β : Type} {k : Cursor → Groups → Option β} {g : Groups} {here : Cursor} {result : β}

/-- What lies in one line is read to its end, if what follows accepts that. -/
lemma runMany_isInLine {next : Cursor → Option β} {a v : Text} (hv : ∀ c ∈ v, isInLine c = true)
    (h : next (between (a ++ v) []) = some result) :
    runMany isInLine next v (between a v) = some result := by
  have hend := skip_between a v []
  rw [append_nil] at hend
  refine runMany_greedy rfl ?_
  rwa [takeWhile_eq_self_iff.mpr hv, dropWhile_eq_nil_iff.mpr hv, hend]

lemma run_atLeastOne_eq_none (h : here.rest.takeWhile f = []) :
    (atLeastOne f).run here g k = none := by
  change (Pattern.seq (.one f) (.many f)).run here g k = none
  rw [run, run]
  split
  case h_1 c rest hrest =>
    rw [hrest, takeWhile_cons] at h
    split at h
    case isTrue => simp at h
    case isFalse hc => rw [if_neg hc]
  case h_2 => rfl

lemma run_atLeastOne_greedy (hne : here.rest.takeWhile f ≠ [])
    (h : k (here.skip (here.rest.takeWhile f) (here.rest.dropWhile f)) g = some result) :
    (atLeastOne f).run here g k = some result := by
  change (Pattern.seq (.one f) (.many f)).run here g k = some result
  rw [run, run]
  cases hrest : here.rest with
  | nil => simp [hrest] at hne
  | cons c rest =>
    rw [hrest] at h hne
    by_cases hc : f c = true
    · rw [takeWhile_cons_of_pos hc, dropWhile_cons_of_pos hc] at h
      simp only [hc, if_true]
      refine runMany_greedy rfl ?_
      rw [Cursor.past_eq_skip, Cursor.skip_skip]
      exact h
    · exact absurd (takeWhile_cons_of_neg hc) hne

/-- The rule for signals behind its keyword. -/
def signalTail : Pattern :=
  .group 2 (atLeastOne isSolid) ++ (blanks ++ (.group 3 (.many isInLine) ++ .textEnd))

/-- A line that goes on with a solid character ends in one way: the name is as long as it can
be, and so are the blanks behind it. -/
lemma run_signalTail {a u s v : Text} (hne : u ≠ [])
    (hu : (u ++ (s ++ v)).takeWhile isSolid = u) (hs : (s ++ v).takeWhile isBlank = s)
    (hv : ∀ c ∈ v, isInLine c = true)
    (h : k (between (a ++ (u ++ (s ++ v))) []) ((3, ⟨byteLength (a ++ (u ++ s)), v⟩) ::
      (2, ⟨byteLength a, u⟩) :: g) = some result) :
    signalTail.run (between a (u ++ (s ++ v))) g k = some result := by
  have hdrop : ∀ {f : Char → Bool} {b c : Text}, (b ++ c).takeWhile f = b →
      (b ++ c).dropWhile f = c := by
    intro f b c hb
    have happend := takeWhile_append_dropWhile (p := f) (l := b ++ c)
    rw [hb] at happend
    exact append_cancel_left happend
  refine run_atLeastOne_greedy (by rw [between_rest, hu]; exact hne) ?_
  rw [between_rest, hu, hdrop hu, skip_between, upTo_between]
  refine runMany_greedy rfl ?_
  rw [between_rest, hs, hdrop hs, skip_between]
  refine runMany_isInLine hv ?_
  have hgroup := upTo_between (a ++ u ++ s) v []
  rw [append_nil] at hgroup
  simp only [← append_assoc] at h
  change textEnd.run _ ((3, Cursor.upTo _ (between (a ++ u ++ s ++ v) [])) :: _) k = some result
  rw [hgroup]
  exact h

lemma run_signal (c : Cursor) :
    signal.pattern.run c g k =
      (indent ++ maybe 1 "GLOBAL" ++ keyword "SIGNAL" ++ gap).run c g
        (fun c g => signalTail.run c g k) :=
  rfl

/-- Links without a line feed lie in one line, on both sides. -/
lemma forall_isInLine (haligned : Aligned x y links) (hy : IsWord y) (h : Link.sep '\n' ∉ links) :
    (∀ c ∈ oldText links, isInLine c = true) ∧ ∀ c ∈ newText links, isInLine c = true := by
  obtain ⟨hold, hnew⟩ := haligned.mem_iff hy (c := '\n') (by decide)
  constructor
  · intro c hc
    simpa [isInLine] using ne_of_mem_of_not_mem hc (hold.not.mpr h)
  · intro c hc
    simpa [isInLine] using ne_of_mem_of_not_mem hc (hnew.not.mpr h)

/-- What follows the keyword is read alike in both texts, if everything is accepted in the end. -/
lemma signalTail_related (haligned : Aligned x y links) (hy : IsWord y)
    (hline : '\n' ∉ oldText links) {R : β → β → Prop} {k' : Cursor → Groups → Option β}
    {a b : List Link} (hlinks : links = a ++ b) (h : Follows links false R a b k k')
    (hk : ∀ c g, (k c g).isSome = true) {g' : Groups} (hg : SameGroups links g g') :
    Option.Rel R (signalTail.run (oldAt a b) g k) (signalTail.run (newAt a b) g' k') := by
  subst hlinks
  obtain ⟨l, m, rfl, hu, hrest, hu', hrest'⟩ :=
    haligned.append_right.exists_span hy fun _ hc => isSolid_of_isWordChar hc
  by_cases hl : l = []
  · subst hl
    have hold : signalTail.run (oldAt a ([] ++ m)) g k = none := run_atLeastOne_eq_none hu
    have hnew : signalTail.run (newAt a ([] ++ m)) g' k' = none := run_atLeastOne_eq_none hu'
    rw [hold, hnew]
    exact .none
  have hm := haligned.append_right.append_right
  obtain ⟨s, v, rfl, hs, hs'⟩ := hm.cutsAlike_takeWhile hy fun _ hc => isBlank_of_isWordChar hc
  have haligned' := haligned.append_right.append_left
  have hne : oldText l ≠ [] := by
    rw [Ne, ← List.isEmpty_iff, haligned'.isEmpty_oldText, List.isEmpty_iff]
    exact hl
  have hne' : newText l ≠ [] := by
    rw [Ne, ← List.isEmpty_iff, haligned'.isEmpty_newText hy, List.isEmpty_iff]
    exact hl
  -- All three stretches are cut at links, so the groups hold the same links.
  have hgroups : SameGroups (a ++ (l ++ (s ++ v)))
      ((3, ⟨byteLength (oldText (a ++ (l ++ s))), oldText v⟩) ::
        (2, ⟨byteLength (oldText a), oldText l⟩) :: g)
      ((3, ⟨byteLength (newText (a ++ (l ++ s))), newText v⟩) ::
        (2, ⟨byteLength (newText a), newText l⟩) :: g') :=
    .cons ⟨rfl, a ++ (l ++ s), v, [], by simp, rfl, rfl⟩
      (.cons ⟨rfl, a, l, s ++ v, rfl, rfl, rfl⟩ hg)
  have hrel := h.related (l ++ (s ++ v)) [] (by simp) _ _ hgroups
  obtain ⟨result, hresult⟩ := Option.isSome_iff_exists.mp (hk (oldAt (a ++ (l ++ (s ++ v))) []) _)
  obtain ⟨result', hresult', hr⟩ := exists_of_rel_some hrel hresult
  have hlast : Link.sep '\n' ∉ v := by
    rw [(haligned.mem_iff hy (by decide)).1] at hline
    exact fun hmem => hline (by simp [hmem])
  obtain ⟨hold, hnew⟩ := forall_isInLine hm.append_right hy hlast
  simp only [oldAt, newAt, oldText_append, newText_append, oldText_nil, newText_nil]
    at hresult hresult' hu hu' hs hs' ⊢
  rw [run_signalTail hne hu hs hold hresult, run_signalTail hne' hu' hs' hnew hresult']
  exact .some hr

/-! ## Matches -/

/-- The rules that declare names. -/
def declaring : List LineRule :=
  [.declaration, .signal, .routineHeader, .functionHeader, .typeDefinition]

/-- At the start of a line a declaring rule fits both texts or none. -/
lemma matchAt_related (h : Renames x y links) (hline : '\n' ∉ oldText links) {rule : LineRule}
    (hrule : rule ∈ declaring) :
    Option.Rel (fun r r' => SameGroups links r.1.groups r'.1.groups)
      (rule.pattern.matchAt (oldAt [] links)) (rule.pattern.matchAt (newAt [] links)) := by
  have hfollows : ∀ a b, Follows links false (fun r r' => SameGroups links r.1.groups r'.1.groups)
      a b (fun there groups => some ((⟨(oldAt [] links).upTo there, groups⟩ : Match), there))
      (fun there groups => some ((⟨(newAt [] links).upTo there, groups⟩ : Match), there)) :=
    fun a b => ⟨fun l b' _ g g' hg => .some hg, by simp⟩
  have htracked : Tracks links false rule.pattern → Option.Rel
      (fun r r' => SameGroups links r.1.groups r'.1.groups)
      (rule.pattern.matchAt (oldAt [] links)) (rule.pattern.matchAt (newAt [] links)) :=
    fun htracks => htracks rfl (hfollows [] links) .nil
  simp only [declaring, mem_cons, not_mem_nil, or_false] at hrule
  rcases hrule with rfl | rfl | rfl | rfl | rfl
  · exact htracked (tracks_declaration h)
  · rw [matchAt, matchAt, run_signal, run_signal]
    refine tracks_lead h (by decide) rfl ⟨?_, by simp⟩ .nil
    intro l b hlinks g g' hg
    exact signalTail_related h.aligned h.isWord hline hlinks (hfollows l b) (fun _ _ => rfl) hg
  · exact htracked (tracks_routineHeader h)
  · exact htracked (tracks_functionHeader h)
  · exact htracked (tracks_typeDefinition h)

/-- Matches of a rule in a text and in the renamed text.  Renamed is what a group holds that begins
outside strings and behind no owner. -/
structure RenamedMatch (x y : Text) (rule : LineRule) (m m' : Match) : Prop where
  has : ∀ i, m.has i = m'.has i
  group : ∀ i, rule.pattern.groupDoubt i .no = .no →
    Option.Rel (fun c c' => Renamed x y c.text c'.text) (m.group? i) (m'.group? i)

lemma RenamedMatch.text {rule : LineRule} {m m' : Match} (h : RenamedMatch x y rule m m') {i : Nat}
    (hi : rule.pattern.groupDoubt i .no = .no) : Renamed x y (m.text i) (m'.text i) := by
  rw [Match.text, Match.text]
  rcases cases_of_rel (h.group i hi) with ⟨hc, hc'⟩ | ⟨c, c', hc, hc', hrenamed⟩ <;> rw [hc, hc']
  · exact ⟨[], .nil, trivial, rfl, rfl⟩
  · exact hrenamed

lemma renamedMatch_of_sameGroups (haligned : Aligned x y links)
    (hthorough : Thorough x y false false links) {rule : LineRule}
    (hstart : rule.pattern.startsText = true) {m m' : Match}
    (hm : rule.find? (oldText links) = some m) (hgroups : SameGroups links m.groups m'.groups) :
    RenamedMatch x y rule m m' := by
  refine ⟨fun i => isSome_eq_of_rel (hgroups.lookup i), fun i hi => ?_⟩
  have hrel : Option.Rel _ (m.group? i) (m'.group? i) := hgroups.lookup i
  rcases cases_of_rel hrel with ⟨hc, hc'⟩ | ⟨c, c', hc, hc', -, a, l, b, rfl, hold, hnew⟩
  · rw [hc, hc']
    exact .none
  · -- The links of the group begin where the pattern leaves no doubt.
    obtain ⟨lead, rest, htext, hlead, hinside, howned⟩ :=
      exists_calm_lead hstart hm hi (Match.mem_groups_of_group? hc)
    simp only at hold hnew
    rw [hold] at hlead
    rw [oldText_append] at htext
    obtain ⟨rfl, -⟩ := append_inj_of_byteLength htext hlead
    rw [hc, hc', hold, hnew]
    exact .some (Renamed.of_append haligned.append_right
      (hthorough.right haligned hinside howned))

/-- **The declaring rules do not notice a renaming.** -/
theorem find?_renamed {code code' : Text} (hnames : ProperNames x y) (h : Renamed x y code code')
    (hline : '\n' ∉ code) (rule : LineRule) (hrule : rule ∈ declaring) :
    Option.Rel (RenamedMatch x y rule) (rule.find? code) (rule.find? code') := by
  obtain ⟨links, haligned, hthorough, rfl, rfl⟩ := h
  have hstart : ∀ rule ∈ declaring, rule.pattern.startsText = true := by decide
  replace hstart := hstart rule hrule
  have hrel := matchAt_related ⟨haligned, hnames⟩ hline hrule
  have hold : rule.find? (oldText links) = (rule.pattern.matchAt (oldAt [] links)).map (·.1) :=
    find?_of_startsText hstart _
  have hnew : rule.find? (newText links) = (rule.pattern.matchAt (newAt [] links)).map (·.1) :=
    find?_of_startsText hstart _
  rcases cases_of_rel hrel with ⟨hfound, hfound'⟩ | ⟨found, found', hfound, hfound', hgroups⟩
  · rw [hold, hnew, hfound, hfound']
    exact .none
  · rw [hfound] at hold
    rw [hold, hnew, hfound']
    exact .some (renamedMatch_of_sameGroups haligned hthorough hstart hold hgroups)

end LineRule
end KrlWorkbench
