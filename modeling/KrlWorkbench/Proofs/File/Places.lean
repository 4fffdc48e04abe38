import KrlWorkbench.Proofs.Uri.Rereading

/-!
# Places of files

Two paths may lead to one file: points and doubled slashes do not count, and two points lead back.
The place of a path is what is left when all that is resolved.  Paths of one place that lead
anywhere lead to the same node (`FileNode.eq_of_place_eq`), and the names of a path are its place if
none of them climbs (`Path.place_eq_names`).

In a tree whose entries have proper names and each its own, the source files listed under a path
are there (`FileNode.isBelow_of_mem_sourceFiles`).
-/

namespace KrlWorkbench

open List Text

variable {entries : List (FileName × FileNode)} {segments : List FileName} {content : Option Text}

lemma Text.splitOn_append {α : Type} {p : α → Bool} {c : α} (hc : p c = true)
    (left right : List α) : splitOn p (left ++ c :: right) = splitOn p left ++ splitOn p right := by
  induction left with
  | nil => exact @splitOn_append_cons _ _ [] (by simp) c hc right
  | cons d left ih =>
    obtain ⟨first, others, hcut⟩ := exists_cons_of_ne_nil (splitOn_ne_nil p left)
    rw [cons_append, splitOn, ih, splitOn, hcut]
    cases p d <;> rfl

namespace Path

variable {p q : Path} {name : FileName}

/-! ## Names -/

lemma spellings_injective : Function.Injective (List.map spelling) := by
  refine map_injective_iff.mpr ?_
  rintro ⟨spelling⟩ ⟨spelling'⟩ rfl
  rfl

/-- Whether something between slashes leads anywhere. -/
def isStep (name : FileName) : Bool :=
  !name.isEmpty && name != here

/-- Whether something can be the name of an entry of a directory. -/
def isEntryName (name : FileName) : Bool :=
  isStep name && name != above && name.all (· != slash)

lemma names_eq_filter (h : p.isAbsolute = true) : p.names = p.segments.filter isStep := by
  simp only [names, h, Bool.not_true, Bool.false_and, Bool.false_eq_true, if_false, nil_append,
    filter_filter]
  congr 1
  funext name
  exact Bool.and_comm _ _

lemma segments_child (p : Path) (h : name.all (· != slash) = true) :
    ∃ front back, p.segments = front ++ back ∧ (∀ s ∈ back, s = []) ∧
      (p.child name).segments = front ++ [name] := by
  have hname : splitOn (· == slash) name = [name] := by
    refine splitOn_eq_singleton fun b hb => ?_
    simpa using all_eq_true.mp h b hb
  by_cases hslash : p.spelling.getLast? = some slash
  · obtain ⟨front, hfront⟩ := getLast?_eq_some_iff.mp hslash
    refine ⟨splitOn (· == slash) front, [[]], ?_, by simp, ?_⟩
    · rw [segments, hfront]
      exact splitOn_append (by decide) front []
    · rw [segments, child, hslash, hfront]
      simpa [hname] using splitOn_append (p := (· == slash)) (c := slash) (by decide) front name
  · refine ⟨p.segments, [], (append_nil _).symm, by simp, ?_⟩
    have hspelling : (p.child name).spelling = p.spelling ++ slash :: name := by
      simp [child, hslash]
    rw [segments, hspelling, splitOn_append (by decide), hname]
    rfl

lemma isAbsolute_child (h : p.isAbsolute = true) (name : FileName) :
    (p.child name).isAbsolute = true := by
  obtain ⟨spelling⟩ := p
  cases spelling with
  | nil => simp [isAbsolute] at h
  | cons b rest => exact h

lemma names_child (h : p.isAbsolute = true) (hname : isEntryName name = true) :
    (p.child name).names = p.names ++ [name] := by
  simp only [isEntryName, Bool.and_eq_true] at hname
  obtain ⟨front, back, hsegments, hback, hchild⟩ := segments_child p hname.2
  have hnone : back.filter isStep = [] := by
    rw [filter_eq_nil_iff]
    intro s hs
    simp [hback s hs, isStep]
  rw [names_eq_filter h, names_eq_filter (isAbsolute_child h name), hsegments, hchild,
    filter_append, filter_append, hnone, append_nil, filter_cons_of_pos hname.1.1, filter_nil]

/-! ## Places -/

/-- The place one comes to from another. -/
def enter (place : List FileName) (name : FileName) : List FileName :=
  if !isStep name then place
  else if name == above then place.dropLast
  else place ++ [name]

/-- The place of a path. -/
def place (p : Path) : List FileName :=
  p.segments.foldl enter []

lemma foldl_enter_filter (place segments : List FileName) :
    (segments.filter isStep).foldl enter place = segments.foldl enter place := by
  rw [foldl_filter]
  congr 1
  funext place name
  cases hstep : isStep name with
  | true => simp
  | false => simp [enter, hstep]

lemma place_eq_of_beq (h : (p == q) = true) (hp : p.isAbsolute = true) : p.place = q.place := by
  obtain ⟨hkind, hnames⟩ := beq_iff.mp h
  rw [names_eq_filter hp, names_eq_filter (hkind ▸ hp)] at hnames
  rw [place, place, ← foldl_enter_filter, hnames, foldl_enter_filter]

lemma foldl_enter_of_not_above (h : above ∉ segments) (place : List FileName) :
    segments.foldl enter place = place ++ segments.filter isStep := by
  induction segments generalizing place with
  | nil => simp
  | cons name segments ih =>
    obtain ⟨hname, hrest⟩ := not_or.mp (mem_cons.not.mp h)
    have hclimb : (name == above) = false := by simpa using Ne.symm hname
    rw [foldl_cons, ih hrest, enter]
    cases hstep : isStep name with
    | true => simp [hclimb, hstep]
    | false => simp [hstep]

lemma above_not_mem_segments (h : p.isAbsolute = true) (habove : above ∉ p.names) :
    above ∉ p.segments := by
  intro hmem
  refine habove ?_
  rw [names_eq_filter h]
  exact mem_filter.mpr ⟨hmem, by decide⟩

lemma place_eq_names (h : p.isAbsolute = true) (habove : above ∉ p.names) : p.place = p.names := by
  rw [place, foldl_enter_of_not_above (above_not_mem_segments h habove), nil_append,
    names_eq_filter h]

end Path

namespace FileNode

open KrlWorkbench.Path

variable {root node next : FileNode} {p q : Path} {name : FileName}

/-! ## Following names -/

lemma skips_eq_not_isStep (name : FileName) : (name.isEmpty || name == here) = !isStep name := by
  rw [isStep, bne, ← Bool.not_or, Bool.not_not]

/-- One step from a directory, with the directories above before and after it. -/
inductive Moves (name : FileName) : List FileNode → FileNode → List FileNode → FileNode → Prop
  | stay {trail : List FileNode} {entries : List (FileName × FileNode)}
      (hstep : isStep name = false) :
      Moves name trail (.directory entries) trail (.directory entries)
  | top {entries : List (FileName × FileNode)} (hclimb : name = above) :
      Moves name [] (.directory entries) [] (.directory entries)
  | up {trail : List FileNode} {up : FileNode} {entries : List (FileName × FileNode)}
      (hclimb : name = above) : Moves name (up :: trail) (.directory entries) trail up
  | down {trail : List FileNode} {entries : List (FileName × FileNode)} {next : FileNode}
      (hstep : isStep name = true) (hclimb : name ≠ above)
      (hentry : entries.lookup name = some next) :
      Moves name trail (.directory entries) (.directory entries :: trail) next

variable {trail trail' : List FileNode} {node' found : FileNode}

lemma Moves.follow (h : Moves name trail node trail' node') (rest : List FileName) :
    follow trail node (name :: rest) = follow trail' node' rest := by
  cases h with
  | stay hstep =>
    refine if_pos ?_
    rw [skips_eq_not_isStep, hstep, Bool.not_false]
  | top hclimb | up hclimb =>
    subst hclimb
    rfl
  | down hstep hclimb hentry =>
    refine (if_neg ?_).trans ?_
    · rw [skips_eq_not_isStep, hstep]
      decide
    · rw [if_neg (by simpa using hclimb), hentry]

lemma exists_moves {rest : List FileName} (h : follow trail node (name :: rest) = .ok found) :
    ∃ trail' node', Moves name trail node trail' node' := by
  cases node with
  | file content => cases h
  | directory entries =>
    cases hstep : isStep name with
    | false => exact ⟨_, _, .stay hstep⟩
    | true =>
      by_cases hclimb : name = above
      · cases trail with
        | nil => exact ⟨_, _, .top hclimb⟩
        | cons up trail => exact ⟨_, _, .up hclimb⟩
      · cases hentry : entries.lookup name with
        | some next => exact ⟨_, _, .down hstep hclimb hentry⟩
        | none =>
          simp [FileNode.follow, skips_eq_not_isStep, hstep, hclimb, hentry] at h

/-- What leads somewhere leads there over a node between. -/
lemma exists_follow_append {front back : List FileName}
    (h : follow trail node (front ++ back) = .ok found) :
    ∃ trail' node', ∀ rest, follow trail node (front ++ rest) = follow trail' node' rest := by
  induction front generalizing trail node with
  | nil => exact ⟨trail, node, fun _ => rfl⟩
  | cons name front ih =>
    obtain ⟨trail₁, node₁, hmoves⟩ := exists_moves h
    rw [cons_append, hmoves.follow] at h
    obtain ⟨trail₂, node₂, hrest⟩ := ih h
    refine ⟨trail₂, node₂, fun rest => ?_⟩
    rw [cons_append, hmoves.follow, hrest]

/-- Nothing between slashes leads nowhere. -/
lemma eq_of_follow_empty {back : List FileName} (hback : ∀ s ∈ back, s = [])
    (h : follow trail node back = .ok found) : node = found := by
  induction back with
  | nil => exact Except.ok.inj h
  | cons name back ih =>
    obtain rfl : name = [] := hback name (by simp)
    cases node with
    | file content => cases h
    | directory entries => exact ih (forall_mem_cons.mp hback).2 h

/-- A place of a tree with the directories above it, nearest first, and the node there. -/
inductive Descent (root : FileNode) : List FileName → List FileNode → FileNode → Prop
  | top : Descent root [] [] root
  | down {place : List FileName} {trail : List FileNode} {entries : List (FileName × FileNode)}
      {name : FileName} {next : FileNode} (above : Descent root place trail (.directory entries))
      (hstep : isStep name = true) (hclimb : name ≠ Path.above)
      (hentry : entries.lookup name = some next) :
      Descent root (place ++ [name]) (.directory entries :: trail) next

variable {place : List FileName}

/-- Names behind those of a place are followed from there. -/
lemma Descent.follow_append (h : Descent root place trail node) (rest : List FileName) :
    follow [] root (place ++ rest) = follow trail node rest := by
  induction h generalizing rest with
  | top => rfl
  | down _ hstep hclimb hentry ih =>
    rw [append_assoc, ih, singleton_append, (Moves.down hstep hclimb hentry).follow]

/-- One step leads to the place that is entered. -/
lemma Descent.moves (h : Descent root place trail node)
    (hmoves : Moves name trail node trail' node') :
    Descent root (enter place name) trail' node' := by
  cases hmoves with
  | stay hstep =>
    rw [enter, if_pos (by rw [hstep, Bool.not_false])]
    exact h
  | top hclimb =>
    subst hclimb
    cases h
    exact .top
  | up hclimb =>
    subst hclimb
    cases h with
    | down hup =>
      change Descent root (List.dropLast (_ ++ [_])) _ _
      rw [dropLast_concat]
      exact hup
  | down hstep hclimb hentry =>
    rw [enter, if_neg (by rw [hstep]; decide), if_neg (by simpa using hclimb)]
    exact .down h hstep hclimb hentry

/-- What is followed from a place leads to the place that is entered name by name. -/
lemma Descent.exists_of_follow (h : Descent root place trail node)
    (hfollow : follow trail node segments = .ok found) :
    ∃ trail', Descent root (segments.foldl enter place) trail' found := by
  induction segments generalizing place trail node with
  | nil =>
    cases hfollow
    exact ⟨trail, h⟩
  | cons name rest ih =>
    obtain ⟨trail', node', hmoves⟩ := exists_moves hfollow
    rw [hmoves.follow] at hfollow
    exact ih (h.moves hmoves) hfollow

lemma isAbsolute_of_find {found : FileNode} (h : root.find p = .ok found) :
    p.isAbsolute = true := by
  by_contra habsolute
  rw [find, if_neg habsolute] at h
  cases h

lemma exists_descent_of_find {found : FileNode} (h : root.find p = .ok found) :
    ∃ trail, Descent root p.place trail found := by
  rw [find, if_pos (isAbsolute_of_find h)] at h
  exact Descent.top.exists_of_follow h

/-- **Paths of one place lead to one node.** -/
lemma eq_of_place_eq {found found' : FileNode} (h : root.find p = .ok found)
    (h' : root.find q = .ok found') (hplace : p.place = q.place) : found = found' := by
  obtain ⟨trail, hp⟩ := exists_descent_of_find h
  obtain ⟨trail', hq⟩ := exists_descent_of_find h'
  have hfound := hp.follow_append []
  have hfound' := hq.follow_append []
  rw [hplace, hfound'] at hfound
  exact (Except.ok.inj hfound).symm

/-! ## Trees with proper names -/

mutual

/-- Whether all entries below a node have proper names, and each its own. -/
def isProper : FileNode → Bool
  | .file _ => true
  | .directory entries => areProper entries

/-- Whether entries have proper names, each its own, and all below them too. -/
def areProper : List (FileName × FileNode) → Bool
  | [] => true
  | (name, node) :: rest =>
    isEntryName name && rest.all (·.1 != name) && node.isProper && areProper rest

end

/-- An entry with a proper name that is found by it. -/
structure IsEntry (entries : List (FileName × FileNode)) (name : FileName) (node : FileNode) :
    Prop where
  named : isEntryName name = true
  found : entries.lookup name = some node
  proper : node.isProper = true

lemma isEntry_of_mem (h : areProper entries = true) (hmem : (name, node) ∈ entries) :
    IsEntry entries name node := by
  induction entries with
  | nil => cases hmem
  | cons entry rest ih =>
    obtain ⟨first, next⟩ := entry
    simp only [areProper, Bool.and_eq_true] at h
    obtain ⟨⟨⟨hfirst, hother⟩, hnext⟩, hrest⟩ := h
    rcases mem_cons.mp hmem with heq | hmem
    · cases heq
      exact ⟨hfirst, by simp, hnext⟩
    · obtain ⟨hnamed, hfound, hproper⟩ := ih hrest hmem
      refine ⟨hnamed, ?_, hproper⟩
      have hne : (name == first) = false := by simpa using all_eq_true.mp hother _ hmem
      rw [lookup_cons, hne]
      exact hfound

lemma mem_of_lookup (h : entries.lookup name = some node) : (name, node) ∈ entries := by
  obtain ⟨front, back, rfl, -⟩ := lookup_eq_some_iff.mp h
  simp

lemma Descent.isProper {place : List FileName} {trail : List FileNode}
    (h : Descent root place trail node) (hroot : root.isProper = true) : node.isProper = true := by
  induction h with
  | top => exact hroot
  | down _ _ _ hentry ih =>
    exact (isEntry_of_mem ih (mem_of_lookup hentry)).proper

lemma find_child (h : root.find p = .ok (.directory entries)) (hentry : IsEntry entries name next) :
    root.find (p.child name) = .ok next := by
  have habsolute := isAbsolute_of_find h
  have hnamed := hentry.named
  simp only [isEntryName, Bool.and_eq_true, bne_iff_ne] at hnamed
  obtain ⟨front, back, hsegments, hback, hchild⟩ := segments_child p hnamed.2
  rw [find, if_pos habsolute, hsegments] at h
  rw [find, if_pos (isAbsolute_child habsolute name), hchild]
  obtain ⟨trail, node, hnode⟩ := exists_follow_append h
  rw [hnode] at h
  obtain rfl := eq_of_follow_empty hback h
  rw [hnode, (Moves.down hnamed.1.1 hnamed.1.2 hentry.found).follow]
  rfl

/-! ## Listed source files -/

/-- A path that leads to a file below another, without climbing on the way. -/
structure IsBelow (root : FileNode) (p q : Path) : Prop where
  file : ∃ content, root.find q = .ok (.file content)
  names : ∃ names, q.names = p.names ++ names ∧ above ∉ names

lemma IsBelow.of_child (h : IsBelow root (p.child name) q) (hp : p.isAbsolute = true)
    (hname : isEntryName name = true) : IsBelow root p q := by
  obtain ⟨hfile, names, hnames, habove⟩ := h
  refine ⟨hfile, name :: names, ?_, ?_⟩
  · rw [hnames, names_child hp hname, append_assoc, singleton_append]
  · have hne : name ≠ above := by
      simp only [isEntryName, Bool.and_eq_true, bne_iff_ne] at hname
      exact hname.1.2
    simp [habove, hne.symm]

lemma isBelow_self (h : root.find p = .ok (.file content)) : IsBelow root p p :=
  ⟨⟨content, h⟩, [], (append_nil _).symm, by simp⟩

lemma isBelow_of_mem_sourceFilesIn {rest : List (FileName × FileNode)}
    (h : root.find p = .ok (.directory entries))
    (hrest : ∀ name node, (name, node) ∈ rest → IsEntry entries name node)
    (hq : q ∈ sourceFilesIn p rest) : IsBelow root p q := by
  fun_induction sourceFilesIn p rest generalizing entries with
  | case1 => cases hq
  | case2 p name node rest hinner houter =>
    have hentry := hrest name node (by simp)
    have hchild := find_child h hentry
    rcases mem_append.mp hq with hq | hq
    · -- The entry itself, or what is below it.
      refine IsBelow.of_child ?_ (isAbsolute_of_find h) hentry.named
      cases node with
      | file content =>
        obtain rfl : q = p.child name := by
          by_cases hsource : (p.child name).isSourceFile = true
          · simpa [hsource] using hq
          · simp [hsource] at hq
        exact isBelow_self hchild
      | directory inner =>
        by_cases hskipped : isSkipped name = true
        · simp [hskipped] at hq
        · refine hinner hchild (fun _ _ => isEntry_of_mem hentry.proper) ?_
          simpa [hskipped] using hq
    · exact houter h (fun name node hmem => hrest name node (mem_cons_of_mem _ hmem)) hq

lemma child_mem_sourceFilesIn (h : (name, .file content) ∈ entries)
    (hsource : (p.child name).isSourceFile = true) : p.child name ∈ sourceFilesIn p entries := by
  fun_induction sourceFilesIn p entries with
  | case1 => cases h
  | case2 p first node rest _ ih =>
    rw [mem_append]
    rcases mem_cons.mp h with heq | h
    · cases heq
      simp [hsource]
    · exact .inr (ih h hsource)

/-- **The source files listed under a path are there**, below it. -/
lemma isBelow_of_mem_sourceFiles (hproper : root.isProper = true) (h : q ∈ root.sourceFiles p) :
    IsBelow root p q := by
  rw [sourceFiles] at h
  cases hfind : root.find p with
  | error failure => simp [hfind] at h
  | ok node =>
    simp only [hfind, mem_mergeSort] at h
    obtain ⟨trail, hdescent⟩ := exists_descent_of_find hfind
    have hnode := hdescent.isProper hproper
    cases node with
    | file content =>
      obtain rfl : q = p := by
        by_cases hsource : p.isSourceFile = true
        · simpa [sourceFilesAt, hsource] using h
        · simp [sourceFilesAt, hsource] at h
      exact isBelow_self hfind
    | directory entries =>
      exact isBelow_of_mem_sourceFilesIn hfind (fun _ _ => isEntry_of_mem hnode) h

lemma child_mem_sourceFiles (hfind : root.find p = .ok (.directory entries))
    (h : (name, .file content) ∈ entries) (hsource : (p.child name).isSourceFile = true) :
    p.child name ∈ root.sourceFiles p := by
  rw [sourceFiles, hfind]
  exact mem_mergeSort.mpr (child_mem_sourceFilesIn h hsource)

lemma read_child (hproper : root.isProper = true) (hfind : root.find p = .ok (.directory entries))
    {text : Text} (h : (name, .file (some text)) ∈ entries) :
    root.read (p.child name) = .ok text := by
  obtain ⟨trail, hdescent⟩ := exists_descent_of_find hfind
  rw [read, find_child hfind (isEntry_of_mem (hdescent.isProper hproper) h)]
  rfl

/-- The same path is read alike if it leads to a node in both spellings. -/
lemma read_eq_of_beq {found found' : FileNode} (h : root.find p = .ok found)
    (h' : root.find q = .ok found') (hsame : (p == q) = true) : root.read p = root.read q := by
  have hplace := place_eq_of_beq hsame (isAbsolute_of_find h)
  rw [read, read, h, h', eq_of_place_eq h h' hplace]

/-! ## Trees with one branch -/

/-- A tree with a node under some names and nothing else. -/
def nested (node : FileNode) : List FileName → FileNode
  | [] => node
  | name :: names => .directory [(name, nested node names)]

lemma isProper_nested {names : List FileName} {node : FileNode} (hnode : node.isProper = true)
    (hnames : ∀ name ∈ names, isEntryName name = true) : (nested node names).isProper = true := by
  induction names with
  | nil => exact hnode
  | cons name names ih =>
    have hname := hnames name (by simp)
    have hrest := ih (forall_mem_cons.mp hnames).2
    simp [nested, isProper, areProper, hname, hrest]

lemma exists_nested_eq (entries : List (FileName × FileNode)) (names : List FileName) :
    ∃ entries', nested (.directory entries) names = .directory entries' := by
  cases names with
  | nil => exact ⟨entries, rfl⟩
  | cons name names => exact ⟨_, rfl⟩

lemma follow_nested {trail : List FileNode} (h : above ∉ segments) :
    follow trail (nested (.directory entries) (segments.filter isStep)) segments =
      .ok (.directory entries) := by
  induction segments generalizing trail with
  | nil => rfl
  | cons name segments ih =>
    obtain ⟨hname, hrest⟩ := not_or.mp (mem_cons.not.mp h)
    cases hstep : isStep name with
    | true =>
      have hentry : List.lookup name
          [(name, nested (.directory entries) (segments.filter isStep))] = some _ :=
        lookup_cons_self
      rw [filter_cons_of_pos hstep, nested,
        (Moves.down hstep (Ne.symm hname) hentry).follow, ih hrest]
    | false =>
      rw [filter_cons_of_neg (by simp [hstep])]
      obtain ⟨entries', hnested⟩ := exists_nested_eq entries (segments.filter isStep)
      have hfollow := @ih trail hrest
      rw [hnested] at hfollow ⊢
      rw [(Moves.stay hstep).follow, hfollow]

lemma find_nested (h : p.isAbsolute = true) (habove : above ∉ p.names)
    (entries : List (FileName × FileNode)) :
    (nested (.directory entries) p.names).find p = .ok (.directory entries) := by
  rw [find, if_pos h, names_eq_filter h]
  exact follow_nested (above_not_mem_segments h habove)

end FileNode
end KrlWorkbench
