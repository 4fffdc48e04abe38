import KrlWorkbench.Proofs.File.Places
import KrlWorkbench.Proofs.Text.FoldClass

/-!
# Paths and URIs of files

The URI of a path names that path (`Uri.exists_toPath?_of_ofPath?`), so two paths have one URI
exactly if they are the same.  A URI that names a path need not be the URI of that path: an escape
may stand where none is needed.  One that is, and that is read from its own text, is canonical.
The URIs of paths that do not climb are (`Uri.isCanonical_of_ofPath?`).
-/

namespace KrlWorkbench

open List Escape Text

variable {segment : Text} {c d : Char} {back : List FileName}

namespace Path

variable {p q : Path} {names : List FileName} {name : FileName}

/-- The bytes of names, with a slash in front of each. -/
def joined (names : List FileName) : List UInt8 :=
  names.flatMap (slash :: ·)

lemma joined_append (names names' : List FileName) :
    joined (names ++ names') = joined names ++ joined names' :=
  flatMap_append

lemma splitOn_append_joined (hname : ∀ b ∈ name, (b == slash) = false)
    (hnames : ∀ n ∈ names, ∀ b ∈ n, (b == slash) = false) :
    splitOn (· == slash) (name ++ joined names) = name :: names := by
  induction names generalizing name with
  | nil => simpa [joined] using splitOn_eq_singleton (p := (· == slash)) hname
  | cons next names ih =>
    have hnext := ih (hnames next (by simp)) (forall_mem_cons.mp hnames).2
    rw [joined, flatMap_cons, cons_append,
      splitOn_append_cons (p := (· == slash)) hname (by decide)]
    exact congrArg (name :: ·) hnext

lemma segments_joined (h : ∀ n ∈ names, ∀ b ∈ n, (b == slash) = false) :
    segments ⟨joined names⟩ = [] :: names :=
  @splitOn_append_joined names [] (by simp) h

lemma isAbsolute_joined (h : names ≠ []) : isAbsolute ⟨joined names⟩ = true := by
  obtain ⟨name, names, rfl⟩ := exists_cons_of_ne_nil h
  rfl

/-- The names of an absolute path lead somewhere and hold no slash. -/
lemma isStep_of_mem_names (h : p.isAbsolute = true) (hname : name ∈ p.names) :
    isStep name = true ∧ ∀ b ∈ name, (b == slash) = false := by
  rw [names_eq_filter h] at hname
  obtain ⟨hmem, hstep⟩ := mem_filter.mp hname
  exact ⟨hstep, not_of_mem_splitOn hmem⟩

/-- The names of a path that does not climb can be those of entries. -/
lemma isEntryName_of_mem_names (h : p.isAbsolute = true) (habove : above ∉ p.names)
    (hname : name ∈ p.names) : isEntryName name = true := by
  obtain ⟨hstep, hslash⟩ := isStep_of_mem_names h hname
  have hne : name ≠ above := by
    rintro rfl
    exact habove hname
  simp only [isEntryName, hstep, Bool.true_and, Bool.and_eq_true, bne_iff_ne, all_eq_true]
  refine ⟨hne, fun b hb hsame => ?_⟩
  simpa [hsame] using hslash b hb

lemma exists_names_eq (h : p.isSourceFile = true) : ∃ front last, p.names = front ++ [last] := by
  rw [isSourceFile, Option.any_eq_true] at h
  obtain ⟨last, hlast, -⟩ := h
  obtain ⟨front, hnames⟩ := getLast?_eq_some_iff.mp (Option.filter_eq_some_iff.mp hlast).1
  exact ⟨front, last, hnames⟩

lemma names_joined
    (h : ∀ n ∈ names, isStep n = true ∧ ∀ b ∈ n, (b == slash) = false) (hback : ∀ n ∈ back, n = [])
    (hne : names ++ back ≠ []) : Path.names ⟨joined (names ++ back)⟩ = names := by
  have hslash : ∀ n ∈ names ++ back, ∀ b ∈ n, (b == slash) = false := by
    intro n hn b hb
    rcases mem_append.mp hn with hn | hn
    · exact (h n hn).2 b hb
    · rw [hback n hn] at hb
      cases hb
  have hkept : names.filter isStep = names := filter_eq_self.mpr fun n hn => (h n hn).1
  have hnone : back.filter isStep = [] := by
    rw [filter_eq_nil_iff]
    intro n hn
    simp [hback n hn, isStep]
  rw [names_eq_filter (isAbsolute_joined hne), segments_joined hslash,
    filter_cons_of_neg (by decide), filter_append, hkept, hnone, append_nil]

lemma beq_joined (h : p.isAbsolute = true) (hback : ∀ n ∈ back, n = [])
    (hne : p.names ++ back ≠ []) : ((⟨joined (p.names ++ back)⟩ : Path) == p) = true := by
  rw [beq_iff, isAbsolute_joined hne, h,
    names_joined (fun n hn => isStep_of_mem_names h hn) hback hne]
  exact ⟨rfl, rfl⟩

end Path

/-! ## From a path to its URI and back -/

namespace Uri

open KrlWorkbench.Path

variable {p q : Path} {u v : Uri}

lemma decode_flatMap (names : List FileName) :
    decode (names.flatMap fun name => '/' :: encodeBytes inFileName name) = joined names := by
  induction names with
  | nil => rfl
  | cons name names ih =>
    rw [flatMap_cons, cons_append, decode_cons (by decide), decode_fileName, ih]
    rfl

lemma driveSlash_eq (bytes : List UInt8) : driveSlash bytes = [] ∨ driveSlash bytes = [slash] := by
  unfold driveSlash
  split
  · split
    · exact .inr rfl
    · exact .inl rfl
  · exact .inl rfl

lemma ofPath?_eq_some (h : ofPath? p = some u) :
    p.isAbsolute = true ∧ u = ⟨"file".toList, some .empty,
      if p.names.isEmpty then ['/']
      else p.names.flatMap fun name => '/' :: encodeBytes inFileName name, []⟩ := by
  rw [ofPath?] at h
  split_ifs at h with habsolute
  exact ⟨habsolute, (Option.some.inj h).symm⟩

/-- **The URI of a path names that path.** -/
lemma exists_toPath?_of_ofPath? (h : ofPath? p = some u) :
    ∃ q, u.toPath? = some q ∧ (q == p) = true := by
  obtain ⟨habsolute, rfl⟩ := ofPath?_eq_some h
  by_cases hnames : p.names = []
  · refine ⟨⟨joined (p.names ++ [[]])⟩, ?_, beq_joined habsolute (by simp) (by simp)⟩
    rw [hnames]
    rfl
  · obtain ⟨back, hback, hslash⟩ : ∃ back : List FileName, (∀ n ∈ back, n = []) ∧
        joined back = driveSlash (joined p.names) := by
      rcases driveSlash_eq (joined p.names) with hnone | hslash
      · exact ⟨[], by simp, hnone.symm⟩
      · exact ⟨[[]], by simp, hslash.symm⟩
    refine ⟨⟨joined (p.names ++ back)⟩, ?_, beq_joined habsolute hback (by simp [hnames])⟩
    rw [if_neg (by simpa using hnames), toPath?, if_pos, decode_flatMap, joined_append, hslash]
    obtain ⟨name, names, hcons⟩ := exists_cons_of_ne_nil hnames
    rw [hcons]
    rfl

lemma exists_ofPath? (h : p.isAbsolute = true) : ∃ u, ofPath? p = some u := by
  rw [ofPath?, if_pos h]
  exact ⟨_, rfl⟩

lemma isAbsolute_of_toPath? (h : u.toPath? = some p) : p.isAbsolute = true := by
  rw [toPath?] at h
  split_ifs at h with hlocal
  simp only [Bool.and_eq_true, beq_iff_eq] at hlocal
  obtain ⟨rest, hpath⟩ := head?_eq_some_iff.mp hlocal.1
  rw [hpath, decode_cons (by decide)] at h
  cases h
  rfl

/-- Names that lead somewhere are those of a directory with a URI. -/
lemma exists_folder {names : List FileName}
    (h : ∀ n ∈ names, isStep n = true ∧ ∀ b ∈ n, (b == slash) = false) :
    ∃ (folder : Uri) (root : Path),
      folder.toPath? = some root ∧ root.isAbsolute = true ∧ root.names = names := by
  have habsolute : isAbsolute ⟨joined (names ++ [[]])⟩ = true := isAbsolute_joined (by simp)
  obtain ⟨folder, hfolder⟩ := exists_ofPath? habsolute
  obtain ⟨root, hroot, hsame⟩ := exists_toPath?_of_ofPath? hfolder
  obtain ⟨-, hnames⟩ := beq_iff.mp hsame
  exact ⟨folder, root, hroot, isAbsolute_of_toPath? hroot,
    hnames.trans (names_joined h (by simp) (by simp))⟩

/-- Paths have one URI exactly if they are the same. -/
lemma beq_of_ofPath? (hp : ofPath? p = some u) (hq : ofPath? q = some u) : (p == q) = true := by
  obtain ⟨p', hp', hsame⟩ := exists_toPath?_of_ofPath? hp
  obtain ⟨q', hq', hsame'⟩ := exists_toPath?_of_ofPath? hq
  cases hp'.symm.trans hq'
  rw [beq_iff] at hsame hsame' ⊢
  exact ⟨hsame.1.symm.trans hsame'.1, hsame.2.symm.trans hsame'.2⟩

lemma ofPath?_eq_of_beq (h : (p == q) = true) : ofPath? p = ofPath? q := by
  obtain ⟨hkind, hnames⟩ := beq_iff.mp h
  rw [ofPath?, ofPath?, hkind, hnames]

lemma eq_of_text_eq (hp : ofPath? p = some u) (hq : ofPath? q = some v) (h : u.text = v.text) :
    u = v := by
  obtain ⟨-, rfl⟩ := ofPath?_eq_some hp
  obtain ⟨-, rfl⟩ := ofPath?_eq_some hq
  simpa [text] using h

/-! ## Canonical URIs -/

/-- A URI that is that of the path it names, if it names one. -/
def IsSpelled (u : Uri) : Prop :=
  ∀ p, u.toPath? = some p → ofPath? p = some u

lemma isSpelled_of_ofPath? (h : ofPath? p = some u) : u.IsSpelled := by
  intro q hq
  obtain ⟨q', hq', hsame⟩ := exists_toPath?_of_ofPath? h
  cases hq.symm.trans hq'
  rw [ofPath?_eq_of_beq hsame, h]

/-- URIs of one path are one URI. -/
lemma IsSpelled.eq_of_beq (hu : u.IsSpelled) (hv : v.IsSpelled) (hp : u.toPath? = some p)
    (hq : v.toPath? = some q) (h : (p == q) = true) : u = v := by
  have hsame := hu p hp
  rw [ofPath?_eq_of_beq h, hv q hq] at hsame
  exact (Option.some.inj hsame).symm

/-- A URI that is read from its own text, and is that of the path it names. -/
structure IsCanonical (u : Uri) : Prop where
  reread : u.reread? = some u
  spelled : u.IsSpelled

end Uri

namespace Escape

lemma mem_encodeBytes {isEscaped : Char → Bool} {bytes : List UInt8}
    (h : c ∈ encodeBytes isEscaped bytes) :
    isEscaped c = false ∨ c = '%' ∨ ∃ n < 16, c = digit n := by
  obtain ⟨b, -, hc⟩ := mem_flatMap.mp h
  simp only at hc
  split at hc
  case isTrue => exact .inr (mem_byte hc)
  case isFalse hout =>
    obtain rfl := mem_singleton.mp hc
    exact .inl (by simpa using hout)

lemma decode_fileName_self (name : FileName) : decode (encodeBytes inFileName name) = name := by
  simpa [decode] using decode_fileName name []

lemma eq_or_isAscii_of_lowerAscii (h : lowerAscii c = d) :
    c = d ∨ isAscii c = true := by
  rw [lowerAscii] at h
  split at h
  case isTrue hupper =>
    have hle : c.toNat ≤ 90 := Char.le_def.mp hupper.2
    simp only [isAscii, decide_eq_true_eq]
    omega
  case isFalse => exact .inl h

lemma eq_of_lowerAscii (h : lowerAscii c = d) (hd : isLetter d = false) : c = d := by
  rcases eq_or_isAscii_of_lowerAscii h with hsame | hascii
  · exact hsame
  · have hkept : isLetter (lowerAscii c) = false → lowerAscii c = c :=
      forall_of_isAscii (P := fun c => isLetter (lowerAscii c) = false → lowerAscii c = c)
        (by decide) hascii
    rw [← h] at hd
    exact (hkept hd).symm.trans h

lemma hexValue?_of_lowerAscii (h : lowerAscii c = 'e') : hexValue? c = some 14 := by
  rcases eq_or_isAscii_of_lowerAscii h with rfl | hascii
  · decide
  · exact forall_of_isAscii (P := fun c => lowerAscii c = 'e' → hexValue? c = some 14)
      (by decide) hascii h

lemma decode_dot {dot : Text} (h : lower dot = ".".toList ∨ lower dot = "%2e".toList)
    (rest : Text) : decode (dot ++ rest) = 46 :: decode rest := by
  rcases h with (h : dot.map lowerAscii = ['.']) | (h : dot.map lowerAscii = ['%', '2', 'e'])
  · obtain ⟨c, tail, rfl, hc, htail⟩ := map_eq_cons_iff.mp h
    obtain rfl := map_eq_nil_iff.mp htail
    obtain rfl := eq_of_lowerAscii hc (by decide)
    rfl
  · obtain ⟨a, tail, rfl, ha, h⟩ := map_eq_cons_iff.mp h
    obtain ⟨b, tail, rfl, hb, h⟩ := map_eq_cons_iff.mp h
    obtain ⟨c, tail, rfl, hc, h⟩ := map_eq_cons_iff.mp h
    obtain rfl := map_eq_nil_iff.mp h
    obtain rfl := eq_of_lowerAscii ha (by decide)
    obtain rfl := eq_of_lowerAscii hb (by decide)
    rw [cons_append, cons_append, cons_append, nil_append, decode]
    simp [hexValue?_of_lowerAscii hc, show hexValue? '2' = some 2 by decide]

end Escape

namespace Segment

open KrlWorkbench.Path

lemma decode_of_isSingleDot (h : isSingleDot segment = true) :
    decode segment = here := by
  simp only [isSingleDot, Bool.or_eq_true, beq_iff_eq] at h
  have hdot := decode_dot h []
  rwa [append_nil] at hdot

lemma decode_of_isDoubleDot (h : isDoubleDot segment = true) :
    decode segment = above := by
  obtain ⟨first, second, hlower, hfirst, hsecond⟩ : ∃ first second : Text,
      lower segment = first ++ second ∧ (first = ".".toList ∨ first = "%2e".toList) ∧
        (second = ".".toList ∨ second = "%2e".toList) := by
    simp only [isDoubleDot, Bool.or_eq_true, beq_iff_eq] at h
    rcases h with ((h | h) | h) | h
    · exact ⟨".".toList, ".".toList, h, .inl rfl, .inl rfl⟩
    · exact ⟨".".toList, "%2e".toList, h, .inl rfl, .inr rfl⟩
    · exact ⟨"%2e".toList, ".".toList, h, .inr rfl, .inl rfl⟩
    · exact ⟨"%2e".toList, "%2e".toList, h, .inr rfl, .inr rfl⟩
  obtain ⟨dot, dot', rfl, rfl, rfl⟩ := map_eq_append_iff.mp hlower
  have hrest := decode_dot hsecond []
  rw [append_nil] at hrest
  rw [decode_dot hfirst, hrest]
  rfl

/-- The name of a file, with its escapes, is left as it is. -/
lemma settled_fileName {name : FileName} (hstep : isStep name = true) (habove : name ≠ above) :
    Settled (encodeBytes inFileName name) := by
  have hdecode := decode_fileName_self name
  refine ⟨?_, ?_, ?_⟩
  · intro c hc
    rcases mem_encodeBytes hc with hout | rfl | ⟨n, hn, rfl⟩
    · simp only [inFileName, Bool.or_eq_false_iff] at hout
      exact ⟨hout.1.1.1, by simp [SchemeKind.isSlash, hout.1.1.2, hout.2]⟩
    · decide
    · exact ⟨isSpared_inPath.2 n hn, (isSpared_isSlash .file).2 n hn⟩
  · by_contra hdot
    rw [Bool.not_eq_false] at hdot
    rw [decode_of_isSingleDot hdot] at hdecode
    rw [← hdecode] at hstep
    exact absurd hstep (by decide)
  · by_contra hdot
    rw [Bool.not_eq_false] at hdot
    rw [decode_of_isDoubleDot hdot] at hdecode
    exact habove hdecode.symm

end Segment

namespace Route

open Segment

lemma isSettled_append_flatMap {first : Text} {segments : List Text} (hfirst : Settled first)
    (hsegments : ∀ s ∈ segments, Settled s) : IsSettled (first ++ segments.flatMap ('/' :: ·)) := by
  induction segments generalizing first with
  | nil => exact ⟨[], first, by simp, hfirst, by simp⟩
  | cons next segments ih =>
    obtain ⟨front, last, hfront, hlast, hpath⟩ :=
      ih (hsegments next (by simp)) (forall_mem_cons.mp hsegments).2
    refine ⟨first :: front, last, forall_mem_cons.mpr ⟨hfirst, hfront⟩, hlast, ?_⟩
    rw [flatMap_cons, cons_append, hpath, folders_cons, append_assoc, cons_append]

/-- Names with their escapes are the path of a file. -/
lemma isRead_names {names : List FileName} (h : ∀ name ∈ names, Path.isStep name = true ∧
      Settled (encodeBytes inFileName name)) :
    IsRead (if names.isEmpty then ['/']
      else names.flatMap fun name => '/' :: encodeBytes inFileName name) := by
  cases names with
  | nil => exact isRead_slash
  | cons name names =>
    obtain ⟨hstep, hname⟩ := h name (by simp)
    refine ⟨_, rfl, ?_, ?_⟩
    · -- The first name is not empty, and does not begin with a slash.
      obtain ⟨c, rest, hcons⟩ :
          ∃ c rest, encodeBytes inFileName name = c :: rest := by
        refine exists_cons_of_ne_nil fun hnil => ?_
        rw [← decode_fileName_self name, hnil] at hstep
        exact absurd hstep (by decide)
      have hc : c ≠ '/' := hname.plain.ne_slash (by simp [hcons])
      rw [hcons]
      exact dropWhile_cons_of_neg (by simpa using hc)
    · have hrest : ∀ s ∈ names.map (encodeBytes inFileName), Settled s := by
        intro s hs
        obtain ⟨n, hn, rfl⟩ := mem_map.mp hs
        exact (h n (mem_cons_of_mem _ hn)).2
      have hpath := isSettled_append_flatMap hname hrest
      rwa [flatMap_map] at hpath

end Route

namespace Uri

open KrlWorkbench.Path

variable {p : Path} {u : Uri}

/-- **The URI of a path that does not climb is canonical.** -/
lemma isCanonical_of_ofPath? (h : ofPath? p = some u) (habove : above ∉ p.names) :
    u.IsCanonical := by
  constructor
  · obtain ⟨habsolute, rfl⟩ := ofPath?_eq_some h
    refine IsFile.reread?_of_local ⟨rfl, ?_, [], [], .inl rfl, .inl rfl, rfl⟩ rfl
    have hsettled : ∀ name ∈ p.names, isStep name = true ∧
        Segment.Settled (encodeBytes inFileName name) := by
      intro name hname
      have hstep := (isStep_of_mem_names habsolute hname).1
      refine ⟨hstep, Segment.settled_fileName hstep ?_⟩
      rintro rfl
      exact habove hname
    exact Route.isRead_names hsettled
  · exact isSpelled_of_ofPath? h

end Uri
end KrlWorkbench
