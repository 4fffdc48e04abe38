import KrlWorkbench.Proofs.Text.Trim
import KrlWorkbench.Uri.Basic

/-!
# Reading a URI again

The text of a URI need not be read as that URI.  For the files of this host it is: reading leaves
a path of settled segments, which reading again does not touch (`Route.path_read_of_isRead`), and
query and fragment hold nothing that would have to be escaped again.  So a URI of a local file is
read from its own text (`Uri.IsFile.reread?_of_local`).
-/

namespace KrlWorkbench

open List Escape Text

variable {scheme rest : Text} {u : Uri}

/-! ## Escapes are written once -/

namespace Escape

variable {isEscaped : Char → Bool} {text : Text} {c : Char}

lemma mem_byte {b : UInt8} (h : c ∈ byte b) : c = '%' ∨ ∃ n < 16, c = digit n := by
  have hlt : b.toNat < 256 := b.toNat_lt
  simp only [byte, mem_cons, not_mem_nil, or_false] at h
  rcases h with rfl | rfl | rfl
  · exact .inl rfl
  · exact .inr ⟨_, by omega, rfl⟩
  · exact .inr ⟨_, by omega, rfl⟩

/-- What stands in a text with escapes: characters outside the class, and the signs of escapes. -/
lemma mem_encode (h : c ∈ encode isEscaped text) :
    c ∈ text ∧ isEscaped c = false ∨ c = '%' ∨ ∃ n < 16, c = digit n := by
  obtain ⟨d, hd, hc⟩ := mem_flatMap.mp h
  split at hc
  case isTrue =>
    obtain ⟨b, -, hb⟩ := mem_flatMap.mp hc
    exact .inr (mem_byte hb)
  case isFalse hout =>
    obtain rfl := mem_singleton.mp hc
    exact .inl ⟨hd, by simpa using hout⟩

/-- The signs of escapes are outside a class. -/
def IsSpared (isEscaped : Char → Bool) : Prop :=
  isEscaped '%' = false ∧ ∀ n < 16, isEscaped (digit n) = false

instance : Decidable (IsSpared isEscaped) :=
  inferInstanceAs (Decidable (_ ∧ _))

lemma isSpared_inPath : IsSpared inPath := by decide

lemma isSpared_inFragment : IsSpared inFragment := by decide

lemma isSpared_inQuery (isSpecial : Bool) : IsSpared (inQuery isSpecial) := by
  cases isSpecial <;> decide

lemma isSpared_isSlash (kind : SchemeKind) : IsSpared kind.isSlash := by
  cases kind <;> decide

/-- A class that spares the signs of escapes is avoided with escapes if it is without them. -/
lemma IsSpared.of_mem_encode {p : Char → Bool} (hp : IsSpared p)
    (htext : ∀ d ∈ text, isEscaped d = false → p d = false) (h : c ∈ encode isEscaped text) :
    p c = false := by
  rcases mem_encode h with ⟨hmem, hout⟩ | rfl | ⟨n, hn, rfl⟩
  · exact htext c hmem hout
  · exact hp.1
  · exact hp.2 n hn

lemma encode_eq_self (h : ∀ c ∈ text, isEscaped c = false) : encode isEscaped text = text := by
  induction text with
  | nil => rfl
  | cons c rest ih =>
    have hc : isEscaped c = false := h c (by simp)
    have hrest := ih fun d hd => h d (mem_cons_of_mem c hd)
    rw [encode, flatMap_cons, hc]
    exact congrArg (c :: ·) hrest

lemma encode_encode (h : IsSpared isEscaped) (text : Text) :
    encode isEscaped (encode isEscaped text) = encode isEscaped text :=
  encode_eq_self fun _ hc => h.of_mem_encode (fun _ _ hd => hd) hc

lemma lt_toNat_of_not_always (h : always c = false) (hblank : (c == ' ') = false) :
    32 < c.toNat := by
  simp only [always, Bool.or_eq_false_iff, decide_eq_false_iff_not] at h
  have hne : c.toNat ≠ 32 := fun heq => beq_eq_false_iff_ne.mp hblank (Char.toNat_inj.mp heq)
  omega

lemma lt_toNat_of_not_inFragment (h : inFragment c = false) : 32 < c.toNat := by
  simp only [inFragment, Bool.or_eq_false_iff] at h
  exact lt_toNat_of_not_always h.1.1.1.1.1 h.1.1.1.1.2

lemma lt_toNat_of_not_inQuery {isSpecial : Bool} (h : inQuery isSpecial c = false) :
    32 < c.toNat := by
  simp only [inQuery, Bool.or_eq_false_iff] at h
  exact lt_toNat_of_not_always h.1.1.1.1.1.1 h.1.1.1.1.1.2

lemma not_inFragment_of_not_inPath (h : inPath c = false) : inFragment c = false := by
  simp only [inPath, Bool.or_eq_false_iff] at h
  exact h.1.1.1.1

end Escape

/-! ## Segments that stay as they are -/

namespace Segment

/-- A piece of a path with its escapes. -/
def IsPlain (segment : Text) : Prop :=
  ∀ c ∈ segment, inPath c = false ∧ SchemeKind.file.isSlash c = false

/-- A segment that reading leaves as it is. -/
structure Settled (segment : Text) : Prop where
  plain : IsPlain segment
  single : isSingleDot segment = false
  double : isDoubleDot segment = false

variable {segment : Text}

lemma settled_nil : Settled [] :=
  ⟨by simp [IsPlain], by decide, by decide⟩

/-- What stands between slashes is plain once it is escaped. -/
lemma isPlain_encode (h : ∀ c ∈ segment, SchemeKind.file.isSlash c = false) :
    IsPlain (encode inPath segment) := fun _ hc =>
  ⟨isSpared_inPath.of_mem_encode (fun _ _ hd => hd) hc,
    (isSpared_isSlash .file).of_mem_encode (fun d hd _ => h d hd) hc⟩

lemma IsPlain.ne_slash (h : IsPlain segment) {c : Char} (hc : c ∈ segment) : c ≠ '/' := by
  rintro rfl
  exact absurd (h _ hc).2 (by decide)

/-- A drive is settled once it is written with a colon. -/
lemma settled_drive (h : IsPlain segment) (hdrive : isDrive segment = true) :
    Settled (segment.take 1 ++ [':']) := by
  obtain ⟨c, d, rfl⟩ : ∃ c d, segment = [c, d] := by
    unfold isDrive at hdrive
    split at hdrive
    · exact ⟨_, _, rfl⟩
    · simp at hdrive
  constructor
  · intro e he
    simp only [take_succ_cons, take_zero, cons_append, nil_append,
      mem_cons, not_mem_nil, or_false] at he
    rcases he with rfl | rfl
    · exact h e (by simp)
    · decide
  · simp [isSingleDot, lower]
  · simp [isDoubleDot, lower, show lowerAscii ':' = ':' by decide]

lemma startsWithDrive_of_isPlainDrive (h : isPlainDrive segment = true) :
    startsWithDrive segment = true := by
  unfold isPlainDrive at h
  split at h
  · simp_all [startsWithDrive, isDrive]
  · simp at h

end Segment

/-! ## Paths of settled segments -/

namespace Route

open Segment

/-- Segments with a slash behind each. -/
def folders (segments : List Text) : Text :=
  segments.flatMap (· ++ ['/'])

variable {segments : List Text} {segment last path : Text}

@[simp] lemma folders_nil : folders [] = [] := rfl

@[simp] lemma folders_cons :
    folders (segment :: segments) = segment ++ '/' :: folders segments := by
  simp [folders]

lemma folders_concat : folders (segments ++ [last]) = folders segments ++ last ++ ['/'] := by
  simp [folders]

/-- A path of settled segments to which another can be added. -/
def IsFolder (path : Text) : Prop :=
  ∃ segments, (∀ s ∈ segments, Settled s) ∧ path = folders segments

/-- A path of settled segments. -/
def IsSettled (path : Text) : Prop :=
  ∃ segments last, (∀ s ∈ segments, Settled s) ∧ Settled last ∧ path = folders segments ++ last

lemma IsFolder.isSettled (h : IsFolder path) : IsSettled path := by
  obtain ⟨segments, hsegments, rfl⟩ := h
  exact ⟨segments, [], hsegments, settled_nil, (append_nil _).symm⟩

lemma isFolder_nil : IsFolder [] :=
  ⟨[], by simp, rfl⟩

lemma IsFolder.append (h : IsFolder path) (hs : Settled segment) :
    IsFolder (path ++ segment ++ ['/']) := by
  obtain ⟨segments, hsegments, rfl⟩ := h
  exact ⟨segments ++ [segment], forall_mem_append.mpr ⟨hsegments, forall_mem_singleton.mpr hs⟩,
    folders_concat.symm⟩

lemma IsFolder.append_last (h : IsFolder path) (hs : Settled segment) :
    IsSettled (path ++ segment) := by
  obtain ⟨segments, hsegments, rfl⟩ := h
  exact ⟨segments, segment, hsegments, hs, rfl⟩

lemma isFolder_slash : IsFolder ['/'] :=
  isFolder_nil.append settled_nil

/-- A folder is nothing or ends with a slash. -/
lemma eq_nil_or_endsWithSlash_folders (segments : List Text) :
    folders segments = [] ∨ endsWithSlash (folders segments) = true := by
  rcases eq_nil_or_concat segments with rfl | ⟨front, last, rfl⟩
  · exact .inl rfl
  · rw [concat_eq_append, folders_concat]
    simp [endsWithSlash]

lemma IsFolder.closed (h : IsFolder path) : IsFolder (closed path) := by
  obtain ⟨segments, hsegments, rfl⟩ := h
  rcases eq_nil_or_endsWithSlash_folders segments with hnil | hslash
  · rw [hnil]
    exact isFolder_slash
  · rw [Route.closed, if_pos hslash]
    exact ⟨segments, hsegments, rfl⟩

lemma cutAtLastSlash_folders_append (hlast : ∀ c ∈ last, c ≠ '/') :
    cutAtLastSlash (folders segments ++ last) = (folders segments, last) := by
  have hpass : ∀ c ∈ last.reverse, (c != '/') = true := by simpa using hlast
  rw [cutAtLastSlash, reverse_append, dropWhile_append_of_pos hpass, takeWhile_append_of_pos hpass]
  rcases eq_nil_or_concat segments with rfl | ⟨front, inner, rfl⟩
  · simp
  · simp [folders_concat]

/-- One step up from a folder is the same folder or the one around it. -/
lemma IsFolder.climb (h : IsFolder path) (kind : SchemeKind) : IsFolder (climb kind path) := by
  obtain ⟨segments, hsegments, rfl⟩ := h
  rcases eq_nil_or_concat segments with rfl | ⟨front, last, rfl⟩
  · cases kind <;> exact isFolder_nil
  · rw [concat_eq_append] at hsegments ⊢
    have hfront : IsFolder (folders front) := ⟨front, fun s hs => hsegments s (by simp [hs]), rfl⟩
    have hlast : Settled last := hsegments last (by simp)
    have hslash : endsWithSlash (folders (front ++ [last])) = true := by
      simp [endsWithSlash, folders_concat]
    have hdropped : (folders (front ++ [last])).dropLast = folders front ++ last := by
      rw [folders_concat, dropLast_concat]
    have hcut : cutAtLastSlash (folders front ++ last) = (folders front, last) :=
      cutAtLastSlash_folders_append fun c hc => hlast.plain.ne_slash hc
    rw [Route.climb, hslash, Bool.true_and]
    by_cases hdrop : canDropSlash (folders (front ++ [last])) = true
    · -- The slash goes, and then the segment before it, which is no drive.
      have hplain : isPlainDrive last = false := by
        rw [canDropSlash, hdropped, hcut] at hdrop
        by_contra hdrive
        simp [startsWithDrive_of_isPlainDrive (by simpa using hdrive)] at hdrop
      rw [if_pos hdrop, hdropped, hcut]
      simpa [hplain] using hfront
    · -- The slash stays, and nothing stands behind it.
      have hwhole : cutAtLastSlash (folders (front ++ [last])) =
          (folders (front ++ [last]), []) := by
        simpa using @cutAtLastSlash_folders_append (front ++ [last]) [] (by simp)
      rw [if_neg hdrop, hwhole]
      have hstay : IsFolder (folders (front ++ [last])) := ⟨_, hsegments, rfl⟩
      simpa [isPlainDrive] using hstay

/-- What a segment adds to a folder, as a folder again or as the last segment. -/
lemma IsFolder.add {route : Route} (h : IsFolder route.path) (hs : IsPlain segment)
    (isLast : Bool) :
    IsSettled (route.add .file segment isLast).path ∧
      (isLast = false → IsFolder (route.add .file segment isLast).path) := by
  have hfolder : ∀ {path : Text}, IsFolder path →
      IsSettled path ∧ (isLast = false → IsFolder path) := fun h => ⟨h.isSettled, fun _ => h⟩
  have happend : ∀ {s : Text}, Settled s →
      IsSettled (route.path ++ s ++ if isLast then [] else ['/']) ∧
      (isLast = false → IsFolder (route.path ++ s ++ if isLast then [] else ['/'])) := by
    intro s hsettled
    cases isLast with
    | false => exact hfolder (h.append hsettled)
    | true => simpa using h.append_last hsettled
  -- Two points, one point, a drive or any other segment.
  rw [Route.add]
  split
  case isTrue =>
    cases isLast with
    | false => exact hfolder (h.climb _).closed
    | true => exact hfolder (h.climb _)
  case isFalse hdouble =>
    split
    case isTrue => exact hfolder h.closed
    case isFalse hsingle =>
      split
      case isTrue hdrive =>
        have hdrive : isDrive segment = true := by simp_all
        simpa using happend (settled_drive hs hdrive)
      case isFalse => exact happend ⟨hs, by simpa using hsingle, by simpa using hdouble⟩

lemma addAll_cons {rest : List Text} (h : rest ≠ []) (kind : SchemeKind) (route : Route) :
    route.addAll kind (segment :: rest) = (route.add kind segment false).addAll kind rest := by
  rw [addAll]
  exact h

lemma isSettled_addAll {route : Route} (h : IsFolder route.path)
    (hsegments : ∀ s ∈ segments, IsPlain s) : IsSettled (route.addAll .file segments).path := by
  induction segments generalizing route with
  | nil => exact h.isSettled
  | cons segment rest ih =>
    have hs : IsPlain segment := hsegments segment (by simp)
    cases rest with
    | nil => exact (h.add hs true).1
    | cons next rest =>
      exact ih ((h.add hs false).2 rfl) (forall_mem_cons.mp hsegments).2

/-- Slashes in front of a path of settled segments are behind empty ones. -/
lemma IsSettled.dropWhile (h : IsSettled path) : IsSettled (path.dropWhile (· == '/')) := by
  obtain ⟨segments, last, hsegments, hlast, rfl⟩ := h
  have hstays : ∀ {c : Char} {rest : Text}, c ≠ '/' →
      (c :: rest).dropWhile (· == '/') = c :: rest := fun hc => by simp [hc]
  induction segments with
  | nil =>
    refine ⟨[], last, by simp, hlast, ?_⟩
    cases last with
    | nil => rfl
    | cons c rest => exact hstays (hlast.plain.ne_slash (by simp))
  | cons segment rest ih =>
    cases segment with
    | nil => simpa using ih (forall_mem_cons.mp hsegments).2
    | cons c tail =>
      refine ⟨(c :: tail) :: rest, last, hsegments, hlast, ?_⟩
      have hc : c ≠ '/' := (hsegments _ mem_cons_self).plain.ne_slash mem_cons_self
      exact hstays hc

/-- The path of a file as reading leaves it: one slash, and settled segments behind it. -/
def IsRead (path : Text) : Prop :=
  ∃ body, path = '/' :: body ∧ body.dropWhile (· == '/') = body ∧ IsSettled body

lemma isRead_slash : IsRead ['/'] :=
  ⟨[], rfl, rfl, isFolder_nil.isSettled⟩

lemma isRead_path_read {start : Text} (h : IsFolder start) (text : Text) :
    IsRead (read .file start text).path := by
  have hpieces : ∀ s ∈ (splitOn SchemeKind.file.isSlash text).map (encode inPath),
      IsPlain s := by
    intro s hs
    obtain ⟨piece, hpiece, rfl⟩ := mem_map.mp hs
    exact isPlain_encode (not_of_mem_splitOn hpiece)
  have hsettled : IsSettled (addAll .file ⟨start, false⟩ _).path := isSettled_addAll h hpieces
  exact ⟨_, rfl, dropWhile_idempotent _ _, hsettled.dropWhile⟩

/-! ## Reading such a path again -/

/-- Settled segments are cut at their slashes. -/
lemma splitOn_folders_append (hsegments : ∀ s ∈ segments, Settled s) (hlast : Settled last) :
    splitOn SchemeKind.file.isSlash (folders segments ++ last) = segments ++ [last] := by
  induction segments with
  | nil => exact splitOn_eq_singleton fun c hc => (hlast.plain c hc).2
  | cons segment rest ih =>
    have hs : Settled segment := hsegments segment (by simp)
    rw [folders_cons, append_assoc, cons_append,
      splitOn_append_cons (fun c hc => (hs.plain c hc).2) (by decide),
      ih (forall_mem_cons.mp hsegments).2, cons_append]

/-- Behind the first place a settled segment is added as it is. -/
lemma add_settled (hpath : 2 ≤ path.length) (hs : Settled segment) (hasDrive isLast : Bool) :
    add .file ⟨path, hasDrive⟩ segment isLast =
      ⟨path ++ segment ++ if isLast then [] else ['/'], hasDrive⟩ := by
  have hlength : (path.length == 1) = false := by
    rw [beq_eq_false_iff_ne]
    omega
  simp [add, hs.single, hs.double, hlength]

lemma addAll_settled (hpath : 2 ≤ path.length) (hsegments : ∀ s ∈ segments, Settled s)
    (hlast : Settled last) (hasDrive : Bool) :
    addAll .file ⟨path, hasDrive⟩ (segments ++ [last]) =
      ⟨path ++ (folders segments ++ last), hasDrive⟩ := by
  induction segments generalizing path with
  | nil => simpa [addAll] using add_settled hpath hlast hasDrive true
  | cons segment rest ih =>
    have hs : Settled segment := hsegments segment (by simp)
    rw [cons_append, addAll_cons (by simp), add_settled hpath hs,
      ih (by simp; omega) (forall_mem_cons.mp hsegments).2]
    simp

/-- **The path of a file is read again as it is.** -/
lemma path_read_of_isRead (h : IsRead path) : (read .file ['/'] path).path = path := by
  obtain ⟨body, rfl, hbody, segments, last, hsegments, hlast, rfl⟩ := h
  have hcut : splitOn SchemeKind.file.isSlash ('/' :: (folders segments ++ last)) =
      [] :: (segments ++ [last]) := by
    rw [← splitOn_folders_append hsegments hlast]
    exact @splitOn_append_cons _ _ [] (by simp) '/' (by decide) _
  have hkept : ([] :: (segments ++ [last])).map (encode inPath) =
      [] :: (segments ++ [last]) := by
    have hsettled : ∀ s ∈ [] :: (segments ++ [last]), Settled s := forall_mem_cons.mpr
      ⟨settled_nil, forall_mem_append.mpr ⟨hsegments, forall_mem_singleton.mpr hlast⟩⟩
    have hsame : ∀ s ∈ [] :: (segments ++ [last]), encode inPath s = id s :=
      fun s hs => encode_eq_self fun c hc => ((hsettled s hs).plain c hc).1
    rw [map_congr_left hsame, map_id]
  -- The empty segment in front moves the first place behind the drive's.
  have hfirst : addAll .file ⟨['/'], false⟩ ([] :: (segments ++ [last])) =
      addAll .file ⟨['/', '/'], false⟩ (segments ++ [last]) :=
    addAll_cons (by simp) _ _
  rw [read, hcut, hkept, hfirst, addAll_settled (by simp) hsegments hlast]
  simpa using hbody

lemma IsRead.not_inPath (h : IsRead path) {c : Char} (hc : c ∈ path) : inPath c = false := by
  obtain ⟨body, rfl, -, segments, last, hsegments, hlast, rfl⟩ := h
  have hslash : inPath '/' = false := by decide
  simp only [folders, mem_cons, mem_append, mem_flatMap, not_mem_nil, or_false] at hc
  rcases hc with rfl | ⟨s, hs, hc | rfl⟩ | hc
  · exact hslash
  · exact ((hsegments s hs).plain c hc).1
  · exact hslash
  · exact (hlast.plain c hc).1

end Route

/-! ## Local files -/

namespace Uri

/-- A query in normal form, or none. -/
def IsQuery (kind : SchemeKind) (query : Text) : Prop :=
  query = [] ∨ ∃ q, query = '?' :: encode (inQuery kind.isSpecial) q

/-- A fragment in normal form, or none. -/
def IsFragment (fragment : Text) : Prop :=
  fragment = [] ∨ ∃ f, fragment = '#' :: encode inFragment f

variable {kind : SchemeKind} {query fragment : Text} {c : Char}

lemma IsQuery.not_inQuery (h : IsQuery kind query) (hc : c ∈ query) :
    inQuery kind.isSpecial c = false := by
  rcases h with rfl | ⟨q, rfl⟩
  · simp at hc
  · rcases mem_cons.mp hc with rfl | hc
    · cases kind <;> decide
    · exact (isSpared_inQuery _).of_mem_encode (fun _ _ hd => hd) hc

lemma IsFragment.not_inFragment (h : IsFragment fragment) (hc : c ∈ fragment) :
    inFragment c = false := by
  rcases h with rfl | ⟨f, rfl⟩
  · simp at hc
  · rcases mem_cons.mp hc with rfl | hc
    · decide
    · exact isSpared_inFragment.of_mem_encode (fun _ _ hd => hd) hc

/-- Reading leaves a query and a fragment in normal form. -/
lemma exists_normalTail_eq (kind : SchemeKind) (text : Text) :
    ∃ query fragment, IsQuery kind query ∧ IsFragment fragment ∧
      normalTail kind text = query ++ fragment := by
  refine ⟨_, _, ?_, ?_, rfl⟩
  all_goals
    split
    · exact .inr ⟨_, rfl⟩
    · exact .inl rfl

lemma normalTail_append (hq : IsQuery kind query) (hf : IsFragment fragment) :
    normalTail kind (query ++ fragment) = query ++ fragment := by
  have hquery : ∀ c ∈ query, (c != '#') = true := by
    intro c hc
    rw [bne_iff_ne]
    rintro rfl
    have hsharp : inQuery kind.isSpecial '#' = true := by cases kind <;> decide
    exact absurd (hq.not_inQuery hc) (by simp [hsharp])
  have htake : (query ++ fragment).takeWhile (· != '#') = query := by
    rw [takeWhile_append_of_pos hquery]
    rcases hf with rfl | ⟨f, rfl⟩ <;> simp
  have hdrop : (query ++ fragment).dropWhile (· != '#') = fragment := by
    rw [dropWhile_append_of_pos hquery]
    rcases hf with rfl | ⟨f, rfl⟩ <;> simp
  rw [normalTail, htake, hdrop]
  rcases hq with rfl | ⟨q, rfl⟩ <;> rcases hf with rfl | ⟨f, rfl⟩ <;>
    simp [encode_encode (isSpared_inQuery _), encode_encode isSpared_inFragment]

/-- Every way to read a file ends with reading a path. -/
lemma isRead_of_ofFile? {body path : Text} {authority : Authority}
    (h : ofFile? body = some (authority, path)) : Route.IsRead path := by
  have hslash : ∀ text, Route.IsRead (Route.read .file ['/'] text).path :=
    Route.isRead_path_read Route.isFolder_slash
  have hstart : ∀ (isSlash : Bool) text,
      Route.IsRead (Route.read .file (if isSlash then [] else ['/']) text).path := by
    intro isSlash text
    cases isSlash with
    | false => exact hslash text
    | true => exact Route.isRead_path_read Route.isFolder_nil text
  simp only [ofFile?] at h
  split at h
  case h_1 =>
    split at h
    case isTrue =>
      split at h
      case isTrue =>
        cases h
        exact hslash _
      case isFalse =>
        obtain ⟨host, -, h⟩ := Option.bind_eq_some_iff.mp h
        cases host <;> cases h <;> exact hslash _
    case isFalse =>
      cases h
      exact hstart _ _
  case h_2 =>
    cases h
    exact hstart _ _
  case h_3 =>
    cases h
    exact Route.isRead_slash

/-- The parts of a URI as reading a file leaves them. -/
structure IsFile (u : Uri) : Prop where
  scheme : u.scheme = "file".toList
  path : Route.IsRead u.path
  tail : ∃ query fragment, IsQuery .file query ∧ IsFragment fragment ∧ u.tail = query ++ fragment

lemma ofScheme_file : SchemeKind.ofScheme "file".toList = .file := by decide

lemma scheme_of_ofRest? (h : ofRest? scheme rest = some u) : u.scheme = scheme := by
  simp only [ofRest?] at h
  split at h
  all_goals
    obtain ⟨parts, -, hu⟩ := Option.bind_eq_some_iff.mp h
    cases hu
    rfl

lemma isFile_of_ofRest? (h : ofRest? scheme rest = some u) (hscheme : u.scheme = "file".toList) :
    u.IsFile := by
  obtain rfl : scheme = "file".toList := (scheme_of_ofRest? h).symm.trans hscheme
  obtain ⟨⟨authority, path⟩, hread, hu⟩ := Option.bind_eq_some_iff.mp h
  cases hu
  exact ⟨hscheme, isRead_of_ofFile? hread, exists_normalTail_eq _ _⟩

lemma isFile_of_ofText? {text : Text} (h : ofText? text = some u)
    (hscheme : u.scheme = "file".toList) : u.IsFile := by
  simp only [ofText?] at h
  split at h
  case h_2 => cases h
  case h_1 =>
    split_ifs at h
    exact isFile_of_ofRest? h hscheme

lemma kept_of_visible {text : Text} (hvisible : ∀ d ∈ text, 32 < d.toNat) :
    text.dropWhile (fun d => decide (d.toNat ≤ 32)) = text ∧
      dropEndWhile (fun d => decide (d.toNat ≤ 32)) text = text ∧
      text.filter (fun d => d != '\t' && d != '\n' && d != '\r') = text := by
  have hedge : ∀ d ∈ text, ¬(decide (d.toNat ≤ 32) = true) := fun d hd => by
    simpa using hvisible d hd
  refine ⟨?_, ?_, filter_eq_self.mpr fun d hd => ?_⟩
  · cases text with
    | nil => rfl
    | cons c text => exact dropWhile_cons_of_neg (hedge c mem_cons_self)
  · rw [dropEndWhile_eq_rdropWhile, rdropWhile_eq_self_iff]
    exact fun hne => hedge _ (getLast_mem hne)
  · have hne : ∀ e : Char, e.toNat ≤ 32 → (d != e) = true := by
      intro e he
      rw [bne_iff_ne]
      rintro rfl
      exact absurd (hvisible d hd) (by omega)
    simp only [hne '\t' (by decide), hne '\n' (by decide), hne '\r' (by decide), Bool.and_self]

lemma ofText?_of_visible {c : Char} (hvisible : ∀ d ∈ c :: scheme ++ ':' :: rest, 32 < d.toNat)
    (hletter : isLetter c = true) (hscheme : ∀ d ∈ scheme, isSchemeChar d = true) :
    ofText? (c :: scheme ++ ':' :: rest) = ofRest? (lower (c :: scheme)) rest := by
  obtain ⟨hfront, hend, hinner⟩ := kept_of_visible hvisible
  have hfirst : ∀ d ∈ c :: scheme, isSchemeChar d = true :=
    forall_mem_cons.mpr ⟨by simp [isSchemeChar, hletter], hscheme⟩
  have hcolon : isSchemeChar ':' = false := by decide
  simp only [ofText?, hfront, hend, hinner, takeWhile_append_of_pos hfirst,
    dropWhile_append_of_pos hfirst, takeWhile_cons, dropWhile_cons, hcolon]
  simp [hletter]

/-- Without a host the path of a file is read behind two slashes. -/
lemma ofFile?_of_isRead {path : Text} (h : Route.IsRead path) :
    ofFile? ('/' :: '/' :: path) = some (.empty, path) := by
  have hread := Route.path_read_of_isRead h
  obtain ⟨body, rfl, -⟩ := h
  have hslash : SchemeKind.file.isSlash '/' = true := by decide
  simp [ofFile?, hslash, Segment.isDrive, fileHost?, hread]

/-- **The URI of a local file is read from its own text.** -/
lemma IsFile.reread?_of_local (h : u.IsFile) (hlocal : u.authority = some .empty) :
    u.reread? = some u := by
  obtain ⟨scheme, authority, path, tail⟩ := u
  obtain ⟨rfl, hpath, query, fragment, hquery, hfragment, rfl⟩ := h
  obtain rfl := hlocal
  have htext : text ⟨"file".toList, some .empty, path, query ++ fragment⟩ =
      'f' :: "ile".toList ++ ':' :: ('/' :: '/' :: path ++ (query ++ fragment)) := by
    simp [text, Authority.toText, Authority.userText, Authority.empty]
  -- Nothing is trimmed off: all characters are above the blank.
  have hvisible : ∀ c ∈ 'f' :: "ile".toList ++ ':' :: ('/' :: '/' :: path ++ (query ++ fragment)),
      32 < c.toNat := by
    have hfront : ∀ c ∈ "file://".toList, 32 < c.toNat := by decide
    change ∀ c ∈ "file://".toList ++ (path ++ (query ++ fragment)), _
    simp only [mem_append]
    rintro c (hc | hc | hc | hc)
    · exact hfront c hc
    · exact lt_toNat_of_not_inFragment
        (not_inFragment_of_not_inPath (hpath.not_inPath hc))
    · exact lt_toNat_of_not_inQuery (hquery.not_inQuery hc)
    · exact lt_toNat_of_not_inFragment (hfragment.not_inFragment hc)
  -- The path ends where it ended: it holds no question mark and no hash.
  have hbody : ∀ c ∈ '/' :: '/' :: path, (!endsPath c) = true := by
    intro c hc
    have hout : inPath c = false := by
      simp only [mem_cons] at hc
      rcases hc with rfl | rfl | hc
      · decide
      · decide
      · exact hpath.not_inPath hc
    simp only [inPath, Bool.or_eq_false_iff] at hout
    simp [endsPath, hout.1.1.1.2, hout.1.1.2]
  have htail : (query ++ fragment).takeWhile (fun c => !endsPath c) = [] ∧
      (query ++ fragment).dropWhile (fun c => !endsPath c) = query ++ fragment := by
    rcases hquery with rfl | ⟨q, rfl⟩ <;> rcases hfragment with rfl | ⟨f, rfl⟩ <;>
      simp [endsPath]
  rw [reread?, htext, ofText?_of_visible hvisible (by decide) (by decide)]
  change ofRest? "file".toList _ = _
  simp only [ofRest?, ofScheme_file, takeWhile_append_of_pos hbody, dropWhile_append_of_pos hbody,
    htail, append_nil, ofFile?_of_isRead hpath, normalTail_append hquery hfragment]
  rfl

end Uri
end KrlWorkbench
