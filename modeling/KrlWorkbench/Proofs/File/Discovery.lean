import KrlWorkbench.Proofs.File.Places
import KrlWorkbench.Proofs.Uri.Listing

/-!
# Finding source files

A file below a directory is told by the directories on the way and its own name
(`FileNode.HoldsFile`).  The search of a directory lists the files with a source extension that have
no skipped directory on the way (`FileNode.mem_sourceFilesIn_iff`), each under the names that lead
to it.  Entries of a directory have different names, so no two files are listed under the same names
(`FileNode.pairwise_names_sourceFilesIn`), and the listing is strictly sorted by names.
-/

namespace KrlWorkbench

open List KrlWorkbench.Path

namespace Path

lemma isOrder_leNames :
    IsOrder (Text.leLists (Text.leLists fun a b : UInt8 => a.toNat ≤ b.toNat)) :=
  (isOrder_of_injective fun _ _ => UInt8.toNat_inj.mp).leLists.leLists

variable {p : Path}

lemma isAbsolute_foldl_child (h : p.isAbsolute = true) (names : List FileName) :
    (names.foldl child p).isAbsolute = true := by
  induction names generalizing p with
  | nil => exact h
  | cons name names ih => exact ih (isAbsolute_child h name)

lemma names_foldl_child (h : p.isAbsolute = true) {names : List FileName}
    (hnames : ∀ name ∈ names, isEntryName name = true) :
    (names.foldl child p).names = p.names ++ names := by
  induction names generalizing p with
  | nil => exact (append_nil _).symm
  | cons name names ih =>
    obtain ⟨hname, hrest⟩ := forall_mem_cons.mp hnames
    rw [foldl_cons, ih (isAbsolute_child h name) hrest, names_child h hname, append_assoc,
      singleton_append]

lemma isSourceFile_child (h : p.isAbsolute = true) {name : FileName}
    (hname : isEntryName name = true) : (p.child name).isSourceFile = isSourceName name := by
  have hproper : name ≠ here ∧ name ≠ above := by
    constructor
    · rintro rfl
      exact absurd hname (by decide)
    · rintro rfl
      exact absurd hname (by decide)
  rw [isSourceFile, fileName?, names_child h hname, getLast?_concat]
  simp [hproper]

end Path

namespace FileNode

variable {entries : List (FileName × FileNode)} {dirs : List FileName} {name : FileName}
  {p q : Path} {entry : FileName × FileNode}

/-! ## Files below a directory -/

/-- Below the entries stands a file of this name, behind these directories. -/
inductive HoldsFile : List (FileName × FileNode) → List FileName → FileName → Prop
  | here {entries : List (FileName × FileNode)} {name : FileName} {content : Option Text}
      (hentry : (name, .file content) ∈ entries) : HoldsFile entries [] name
  | inside {entries inner : List (FileName × FileNode)} {dir name : FileName}
      {dirs : List FileName} (hentry : (dir, .directory inner) ∈ entries)
      (hinner : HoldsFile inner dirs name) : HoldsFile entries (dir :: dirs) name

lemma HoldsFile.cons (h : HoldsFile entries dirs name) (entry : FileName × FileNode) :
    HoldsFile (entry :: entries) dirs name := by
  cases h with
  | here hentry => exact .here (mem_cons_of_mem _ hentry)
  | inside hentry hinner => exact .inside (mem_cons_of_mem _ hentry) hinner

/-- The first name on the way to a file is that of an entry, and all names are proper. -/
lemma HoldsFile.names (h : HoldsFile entries dirs name) (hproper : areProper entries = true) :
    (∃ first ∈ entries.map Prod.fst, ∃ rest, dirs ++ [name] = first :: rest) ∧
      ∀ n ∈ dirs ++ [name], isEntryName n = true := by
  induction h with
  | here hentry =>
    refine ⟨⟨_, mem_map_of_mem hentry, [], rfl⟩, ?_⟩
    exact forall_mem_singleton.mpr (isEntry_of_mem hproper hentry).named
  | inside hentry _ ih =>
    have hdir := isEntry_of_mem hproper hentry
    refine ⟨⟨_, mem_map_of_mem hentry, _, cons_append⟩, ?_⟩
    exact forall_mem_cons.mpr ⟨hdir.named, (ih hdir.proper).2⟩

/-! ## The search -/

lemma subset_sourceFilesIn {inner : List (FileName × FileNode)}
    (h : (name, .directory inner) ∈ entries) (hname : isSkipped name = false) :
    sourceFilesIn (p.child name) inner ⊆ sourceFilesIn p entries := by
  fun_induction sourceFilesIn p entries with
  | case1 => cases h
  | case2 p first node rest _ ih =>
    rcases mem_cons.mp h with heq | h
    · cases heq
      simp [hname]
    · exact fun q hq => mem_append_right _ (ih h hq)

/-- **What is listed**: the source files without a skipped directory on the way. -/
lemma mem_sourceFilesIn_iff (hp : p.isAbsolute = true) (hproper : areProper entries = true) :
    q ∈ sourceFilesIn p entries ↔ ∃ dirs name, HoldsFile entries dirs name ∧
      isSourceName name = true ∧ (∀ dir ∈ dirs, isSkipped dir = false) ∧
      q = (dirs.foldl child p).child name := by
  constructor
  · intro hq
    fun_induction sourceFilesIn p entries with
    | case1 => cases hq
    | case2 p first node rest hinner houter =>
      have hfirst := isEntry_of_mem hproper mem_cons_self
      rcases mem_append.mp hq with hq | hq
      · cases node with
        | file content =>
          dsimp only at hq
          rw [isSourceFile_child hp hfirst.named] at hq
          split_ifs at hq with hsource
          · obtain rfl := mem_singleton.mp hq
            exact ⟨[], first, .here mem_cons_self, hsource, by simp, rfl⟩
          · cases hq
        | directory inner =>
          dsimp only at hq
          split_ifs at hq with hskipped
          · cases hq
          · obtain ⟨dirs, name, hholds, hsource, hdirs, rfl⟩ :=
              hinner (isAbsolute_child hp first) hfirst.proper hq
            refine ⟨first :: dirs, name, .inside mem_cons_self hholds, hsource, ?_, rfl⟩
            exact forall_mem_cons.mpr ⟨by simpa using hskipped, hdirs⟩
      · have hrest : areProper rest = true := by
          simp only [areProper, Bool.and_eq_true] at hproper
          exact hproper.2
        obtain ⟨dirs, name, hholds, hlisted⟩ := houter hp hrest hq
        exact ⟨dirs, name, hholds.cons _, hlisted⟩
  · rintro ⟨dirs, name, hholds, hsource, hdirs, rfl⟩
    -- On the way down to the file; the search keeps the part it is in.
    induction hholds generalizing p with
    | here hentry =>
      refine child_mem_sourceFilesIn hentry ?_
      rw [isSourceFile_child hp (isEntry_of_mem hproper hentry).named, hsource]
    | inside hentry _ ih =>
      obtain ⟨hdir, hdirs⟩ := forall_mem_cons.mp hdirs
      exact subset_sourceFilesIn hentry hdir
        (ih (isAbsolute_child hp _) (isEntry_of_mem hproper hentry).proper hsource hdirs)

lemma exists_names_of_mem (hp : p.isAbsolute = true) (hproper : areProper entries = true)
    (hq : q ∈ sourceFilesIn p entries) :
    ∃ first ∈ entries.map Prod.fst, ∃ rest, q.names = p.names ++ first :: rest := by
  obtain ⟨dirs, name, hholds, -, -, rfl⟩ := (mem_sourceFilesIn_iff hp hproper).mp hq
  obtain ⟨⟨first, hfirst, rest, hnames⟩, hentries⟩ := hholds.names hproper
  obtain ⟨hdirs, hname⟩ := forall_mem_append.mp hentries
  refine ⟨first, hfirst, rest, ?_⟩
  rw [names_child (isAbsolute_foldl_child hp dirs) (hname name mem_cons_self),
    names_foldl_child hp hdirs, append_assoc, hnames]

lemma pairwise_names_sourceFilesIn (hp : p.isAbsolute = true) (hproper : areProper entries = true) :
    (sourceFilesIn p entries).Pairwise fun a b => a.names ≠ b.names := by
  fun_induction sourceFilesIn p entries with
  | case1 => exact .nil
  | case2 p first node rest hinner houter =>
    have hentry := isEntry_of_mem hproper mem_cons_self
    simp only [areProper, Bool.and_eq_true] at hproper
    refine pairwise_append.mpr ⟨?_, houter hp hproper.2, fun a ha b hb hnames => ?_⟩
    · cases node with
      | file content =>
        dsimp only
        split_ifs
        · exact pairwise_singleton _ _
        · exact .nil
      | directory inner =>
        dsimp only
        split_ifs
        · exact .nil
        · exact hinner (isAbsolute_child hp first) hentry.proper
    -- What lies under different entries differs in the name of the entry.
    · have hsingle : areProper [(first, node)] = true := by
        simp [areProper, hentry.named, hentry.proper]
      have ha' : a ∈ sourceFilesIn p [(first, node)] := by
        cases node <;> simpa [sourceFilesIn] using ha
      obtain ⟨_, hfirst, _, ha⟩ := exists_names_of_mem hp hsingle ha'
      obtain ⟨other, hother, _, hb⟩ := exists_names_of_mem hp hproper.2 hb
      obtain ⟨entry, hentry, rfl⟩ := mem_map.mp hother
      rw [ha, hb, append_cancel_left_eq] at hnames
      have hne : entry.1 ≠ first := by simpa using all_eq_true.mp hproper.1.1.2 entry hentry
      exact hne ((List.cons.inj hnames).1.symm.trans (mem_singleton.mp hfirst))

/-- **The search for source files is exact.** Under a directory it lists, strictly sorted by names
and so without repetition, the files with a source extension that have no hidden and no dependency
directory on the way; what the directory itself is called does not matter. -/
theorem sourceFiles_exact {disk : FileNode} (hproper : disk.isProper = true)
    (hfind : disk.find p = .ok (.directory entries)) :
    (disk.sourceFiles p).Pairwise (fun a b => a.le b = true ∧ a.names ≠ b.names) ∧
      ∀ q, q ∈ disk.sourceFiles p ↔ ∃ dirs name, HoldsFile entries dirs name ∧
        isSourceName name = true ∧ (∀ dir ∈ dirs, isSkipped dir = false) ∧
        q = (dirs.foldl child p).child name := by
  have hp := isAbsolute_of_find hfind
  obtain ⟨trail, hdescent⟩ := exists_descent_of_find hfind
  have hentries : areProper entries = true := hdescent.isProper hproper
  have hlisted : disk.sourceFiles p = (sourceFilesIn p entries).mergeSort Path.le := by
    rw [sourceFiles, hfind]
    rfl
  rw [hlisted]
  refine ⟨?_, fun q => mem_mergeSort.trans (mem_sourceFilesIn_iff hp hentries)⟩
  have htrans : ∀ a b c : Path, a.le b = true → b.le c = true → a.le c = true :=
    fun _ _ _ => isOrder_leNames.trans
  have htotal : ∀ a b : Path, (a.le b || b.le a) = true := fun a b =>
    Bool.or_eq_true_iff.mpr (isOrder_leNames.total a.names b.names)
  exact (pairwise_mergeSort htrans htotal _).and
    (((mergeSort_perm _ _).pairwise_iff Ne.symm).mpr (pairwise_names_sourceFilesIn hp hentries))

/-- A hidden directory is searched if the search begins there. -/
theorem sourceFiles_exact_hidden :
    let name (text : String) : FileName := Text.bytes text.toList
    let entries := [(name "R1", directory [(name ".a.SRC", file none)])]
    let disk := directory [(name ".cell", directory entries)]
    let p := Path.ofText "/.cell".toList
    disk.isProper = true ∧ disk.find p = .ok (directory entries) ∧
      (p.child (name "R1")).child (name ".a.SRC") ∈ disk.sourceFiles p := by
  intro name entries disk p
  have hproper : disk.isProper = true := by decide
  have hfind : disk.find p = .ok (directory entries) := rfl
  refine ⟨hproper, hfind, ((sourceFiles_exact hproper hfind).2 _).mpr ?_⟩
  exact ⟨[name "R1"], _, .inside mem_cons_self (.here mem_cons_self), by decide, by decide, rfl⟩

end FileNode
end KrlWorkbench
