import KrlWorkbench.Proofs.Session.DiskFiles

/-!
# Each file is searched once

The texts that are searched are those of the open documents and those of the files that no open
document names.  Files are told apart by their URIs there, while two URIs may name one path: an
escape may stand in one of them where the other has none.  If the open documents have canonical URIs
(`Uri.IsCanonical`) all sources have URIs that are determined by their paths, and no path is there
twice.  A document of another URI can be searched beside the file of its path
(`BusyTimeline.not_pairwise_paths_sources`).
-/

namespace KrlWorkbench

open List KrlWorkbench.Path Text

variable {text : Text} {p : Path} {u : Uri}

namespace Session

variable {s : Session} {disk : FileNode} {file : SourceFile}

/-! ## Documents of canonical URIs -/

/-- All open documents have canonical URIs. -/
def IsCanonical (s : Session) : Prop :=
  ∀ d ∈ s.documents.entries, d.1.IsCanonical

lemma kept_isCanonical : Kept IsCanonical Uri.IsCanonical where
  congr h hdocuments _ := by
    rw [IsCanonical, hdocuments]
    exact h
  analyze := by
    intro s u h hu text d hd
    change d ∈ (s.documents.insert u text).entries at hd
    rw [(UriMap.lists_entries _).mem_iff, UriMap.find?_insert] at hd
    split at hd
    case isTrue => cases hd; exact hu
    case isFalse => exact h d ((UriMap.lists_entries _).mem_iff.mpr hd)
  forget h _ _ d hd := h d (mem_of_mem_filter hd)
  setRoots h roots := by
    rw [IsCanonical, (documents_setRoots _ roots).1]
    exact h
  applyScan h _ := h

/-- Documents of canonical URIs stay as they are when their URIs are read again. -/
lemma reread_eq_entries (h : s.IsCanonical) : s.reread = s.documents.entries := by
  have hsame : ∀ d ∈ s.documents.entries,
      (d.1.reread?.map fun v => (v, d.2)) = some d := by
    intro d hd
    rw [(h d hd).reread]
    rfl
  exact (filterMap_congr hsame).trans filterMap_some

/-! ## What is searched -/

/-- The open documents in the order of their URIs. -/
def buffers (s : Session) : List SourceFile :=
  (s.reread.map fun d => SourceFile.mk d.1 d.2).mergeSort fun a b => a.uri.le b.uri

/-- The readable files that no open document names. -/
def otherFiles (s : Session) (disk : FileNode) : List SourceFile :=
  ((diskFiles disk s.roots).filter fun f => !s.buffers.any (·.uri == f.1)).filterMap fun f =>
    (disk.read f.2).toOption.map fun text => SourceFile.mk f.1 text

lemma sources_eq (s : Session) (disk : FileNode) :
    s.sources disk = s.buffers ++ s.otherFiles disk :=
  rfl

lemma mem_buffers : file ∈ s.buffers ↔ (file.uri, file.text) ∈ s.reread := by
  rw [buffers, mem_mergeSort, mem_map]
  constructor
  · rintro ⟨d, hd, rfl⟩
    exact hd
  · intro hd
    exact ⟨_, hd, rfl⟩

lemma mem_otherFiles :
    file ∈ s.otherFiles disk ↔
      ∃ path, (file.uri, path) ∈ diskFiles disk s.roots ∧ disk.read path = .ok file.text ∧
        ∀ buffer ∈ s.buffers, buffer.uri ≠ file.uri := by
  simp only [otherFiles, mem_filterMap, mem_filter, Option.map_eq_some_iff,
    Bool.not_eq_true', any_eq_false, beq_iff_eq]
  constructor
  · rintro ⟨f, ⟨hf, hother⟩, text, htext, rfl⟩
    exact ⟨f.2, hf, FileNode.toOption_eq_some_iff.mp htext, hother⟩
  · rintro ⟨path, hmem, hread, hother⟩
    exact ⟨(file.uri, path), ⟨hmem, hother⟩, file.text, FileNode.toOption_eq_some_iff.mpr hread,
      rfl⟩

/-- A readable source file in a folder is searched if no open document has its URI. -/
lemma child_mem_otherFiles (hproper : disk.isProper = true) {root : Path} (hroot : root ∈ s.roots)
    {entries : List (FileName × FileNode)} (hfind : disk.find root = .ok (.directory entries))
    {name : FileName} (hentry : (name, .file (some text)) ∈ entries)
    (hsource : (root.child name).isSourceFile = true) (hu : Uri.ofPath? (root.child name) = some u)
    (hother : ∀ d ∈ s.reread, d.1 ≠ u) : ⟨u, text⟩ ∈ s.otherFiles disk := by
  have hlisted := mem_flatMap.mpr
    ⟨root, hroot, FileNode.child_mem_sourceFiles hfind hentry hsource⟩
  obtain ⟨path, hmem, hread⟩ := exists_readable_mem_diskFiles hproper hlisted
    (FileNode.read_child hproper hfind hentry) hu
  exact mem_otherFiles.mpr
    ⟨path, hmem, hread, fun buffer hbuffer => hother _ (mem_buffers.mp hbuffer)⟩

/-- No two files on disk have one URI. -/
lemma pairwise_diskFiles (disk : FileNode) (roots : List Path) :
    (diskFiles disk roots).Pairwise fun f g => f.1 ≠ g.1 := by
  refine List.Pairwise.filterMap _ ?_ (Dedup.pairwise_eraseDups _)
  intro p q hpq f hf g hg hsame
  obtain ⟨u, hu, rfl⟩ := Option.map_eq_some_iff.mp hf
  obtain ⟨v, hv, rfl⟩ := Option.map_eq_some_iff.mp hg
  obtain rfl : u = v := hsame
  rw [Uri.beq_of_ofPath? hv hu] at hpq
  cases hpq

lemma nodup_uris_otherFiles (s : Session) (disk : FileNode) :
    ((s.otherFiles disk).map SourceFile.uri).Nodup := by
  rw [List.Nodup, pairwise_map]
  refine List.Pairwise.filterMap _ ?_ ((pairwise_diskFiles disk s.roots).filter _)
  intro f g hfg a ha b hb
  obtain ⟨text, -, rfl⟩ := Option.map_eq_some_iff.mp ha
  obtain ⟨text', -, rfl⟩ := Option.map_eq_some_iff.mp hb
  exact hfg

lemma nodup_uris_buffers (h : s.IsCanonical) : (s.buffers.map SourceFile.uri).Nodup := by
  have hperm : (s.buffers.map SourceFile.uri).Perm (s.documents.entries.map (·.1)) := by
    refine ((mergeSort_perm _ _).map _).trans ?_
    rw [map_map, reread_eq_entries h]
    rfl
  refine hperm.nodup_iff.mpr (List.Nodup.of_map Uri.text ?_)
  rw [map_map]
  exact s.documents.distinct

/-- **No two sources have one URI** if the documents have canonical ones. -/
lemma nodup_uris_sources (h : s.IsCanonical) (disk : FileNode) :
    ((s.sources disk).map SourceFile.uri).Nodup := by
  rw [sources_eq, map_append, nodup_append]
  refine ⟨nodup_uris_buffers h, nodup_uris_otherFiles s disk, ?_⟩
  intro u hu v hv
  obtain ⟨buffer, hbuffer, rfl⟩ := mem_map.mp hu
  obtain ⟨file, hfile, rfl⟩ := mem_map.mp hv
  obtain ⟨-, -, -, hother⟩ := mem_otherFiles.mp hfile
  exact hother buffer hbuffer

lemma isSpelled_of_mem_sources (h : s.IsCanonical) (hfile : file ∈ s.sources disk) :
    file.uri.IsSpelled := by
  rw [sources_eq, mem_append] at hfile
  rcases hfile with hfile | hfile
  · rw [mem_buffers, reread_eq_entries h] at hfile
    exact (h _ hfile).spelled
  · obtain ⟨path, hmem, -⟩ := mem_otherFiles.mp hfile
    exact Uri.isSpelled_of_ofPath? (mem_diskFiles.mp hmem).2

/-- **No two sources name one path** if the documents have canonical URIs. -/
lemma pairwise_paths_sources (h : s.IsCanonical) (disk : FileNode) :
    (s.sources disk).Pairwise fun f g =>
      ∀ p q, f.uri.toPath? = some p → g.uri.toPath? = some q → (p == q) = false := by
  have hpairwise := pairwise_map.mp (nodup_uris_sources h disk)
  refine List.Pairwise.imp_of_mem ?_ hpairwise
  intro f g hf hg hne p q hp hq
  rw [← Bool.not_eq_true]
  intro hsame
  exact hne ((isSpelled_of_mem_sources h hf).eq_of_beq (isSpelled_of_mem_sources h hg) hp hq hsame)

lemma mem_sources_of_open (h : s.IsCanonical) (hopen : (u, text) ∈ s.documents.entries)
    (disk : FileNode) : ⟨u, text⟩ ∈ s.sources disk := by
  rw [sources_eq, mem_append, mem_buffers, reread_eq_entries h]
  exact .inl hopen

/-- The source of the path of an open document is the document. -/
lemma eq_buffer_of_path (h : s.IsCanonical) (hopen : (u, text) ∈ s.documents.entries) {q : Path}
    (hp : u.toPath? = some p) (hfile : file ∈ s.sources disk) (hq : file.uri.toPath? = some q)
    (hsame : (q == p) = true) : file = ⟨u, text⟩ := by
  have huri : file.uri = u :=
    (isSpelled_of_mem_sources h hfile).eq_of_beq (h _ hopen).spelled hq hp hsame
  exact inj_on_of_nodup_map (nodup_uris_sources h disk) hfile
    (mem_sources_of_open h hopen disk) huri

end Session

namespace BusyTimeline

open Session

lemma session_opened {folder : Uri} {root : Path} (hfolder : folder.toPath? = some root)
    (disk : FileNode) (u : Uri) (text : Text) :
    let t := run disk [.initialized none none [folder], .handled (.opened u text)]
    t.session.roots = [root] ∧ t.session.documents.entries = [(u, text)] := by
  have hroots : initialRoots none none [folder] = [root] := by
    simp [initialRoots, hfolder, addRoot]
  constructor
  · change (Session.setRoots {} (initialRoots none none [folder])).roots = [root]
    rw [hroots, setRoots_of_not_beq rfl]
  · change (UriMap.insert (Session.setRoots {} _).documents u text).entries = [(u, text)]
    rw [(documents_setRoots _ _).1]
    rfl

/-- Some disk has a source file of a given path alone in a folder. -/
lemma exists_folder_of_isSourceFile (habsolute : p.isAbsolute = true)
    (hsource : p.isSourceFile = true) (habove : above ∉ p.names) :
    ∃ (disk : FileNode) (folder : Uri) (root : Path) (name : FileName), disk.isProper = true ∧
      folder.toPath? = some root ∧
      disk.find root = .ok (.directory [(name, .file (some []))]) ∧
      (root.child name == p) = true := by
  obtain ⟨front, last, hnames⟩ := exists_names_eq hsource
  have hentries : ∀ n ∈ front ++ [last], isEntryName n = true := by
    intro n hn
    rw [← hnames] at hn
    exact isEntryName_of_mem_names habsolute habove hn
  obtain ⟨folder, root, hfolder, hroot, hfront⟩ := @Uri.exists_folder front fun n hn =>
    isStep_of_mem_names habsolute (hnames ▸ mem_append_left _ hn)
  refine ⟨.nested (.directory [(last, .file (some []))]) front, folder, root, last, ?_, hfolder,
    ?_, ?_⟩
  · refine FileNode.isProper_nested ?_ fun n hn => hentries n (mem_append_left _ hn)
    simp [FileNode.isProper, FileNode.areProper, hentries last (by simp)]
  · have hclimb : above ∉ root.names := by
      rw [hfront]
      intro hmem
      exact habove (hnames ▸ mem_append_left _ hmem)
    have hfound := FileNode.find_nested hroot hclimb [(last, .file (some []))]
    rwa [hfront] at hfound
  · refine beq_iff.mpr ⟨(isAbsolute_child hroot last).trans habsolute.symm, ?_⟩
    rw [names_child hroot (hentries last (by simp)), hfront, hnames]

/-- A document of another URI than that of its path is searched beside the file of the path. -/
lemma not_pairwise_paths_sources (hreread : u.reread? = some u) (hp : u.toPath? = some p)
    (hsource : p.isSourceFile = true) (habove : above ∉ p.names) (hspelled : ¬ u.IsSpelled)
    (text : Text) :
    ∃ disk folder, ¬ ((run disk [.initialized none none [folder],
      .handled (.opened u text)]).session.sources disk).Pairwise fun f g =>
        ∀ p q, f.uri.toPath? = some p → g.uri.toPath? = some q → (p == q) = false := by
  have habsolute := Uri.isAbsolute_of_toPath? hp
  obtain ⟨v, hv⟩ := Uri.exists_ofPath? habsolute
  have hne : u ≠ v := by
    rintro rfl
    exact hspelled (Uri.isSpelled_of_ofPath? hv)
  obtain ⟨disk, folder, root, name, hproper, hfolder, hfind, hsame⟩ :=
    exists_folder_of_isSourceFile habsolute hsource habove
  refine ⟨disk, folder, fun hpairwise => ?_⟩
  obtain ⟨hroots, hdocuments⟩ := session_opened hfolder disk u text
  generalize (run disk _).session = s at hroots hdocuments hpairwise
  have hopen : s.reread = [(u, text)] := by
    simp [Session.reread, hdocuments, hreread]
  have hbuffer : ⟨u, text⟩ ∈ s.buffers := by
    rw [mem_buffers, hopen]
    exact mem_singleton_self _
  have hfile : ⟨v, []⟩ ∈ s.otherFiles disk := by
    refine child_mem_otherFiles hproper (hroots ▸ mem_singleton_self root) hfind
      mem_cons_self ?_ ((Uri.ofPath?_eq_of_beq hsame).trans hv) ?_
    · rwa [isSourceFile, fileName?, (beq_iff.mp hsame).2]
    · rw [hopen]
      intro d hd
      rw [mem_singleton.mp hd]
      exact hne
  -- The document and the file have URIs of their own and one path.
  obtain ⟨q, hq, hqp⟩ := Uri.exists_toPath?_of_ofPath? hv
  have hpq : (p == q) = true := beq_iff.mpr ((beq_iff.mp hqp).imp Eq.symm Eq.symm)
  rw [sources_eq, pairwise_append] at hpairwise
  have hdiffer := hpairwise.2.2 _ hbuffer _ hfile p q hp hq
  rw [hpq] at hdiffer
  cases hdiffer

/-- **Each file is searched once.**  In whatever order documents are opened, changed, saved and
closed, folders and files change and scans are taken and put in place, no two of the texts that are
searched are of one path, and that of an open document is its text, if only documents of canonical
URIs are given a text.  A URI of a local file is canonical if it is the one its path has, and the
URIs of paths that do not climb are.  A document of any other URI that is read back and names a
source file by such a path is, on some disk, searched beside that file. -/
theorem sources_distinct_of_canonical {disk : FileNode} {actions : List Action}
    (hactions : ∀ action ∈ actions, ∀ u ∈ action.document?, u.IsCanonical) :
    let t := run disk actions
    ((t.session.sources t.disk).Pairwise fun f g =>
      ∀ p q, f.uri.toPath? = some p → g.uri.toPath? = some q → (p == q) = false) ∧
    (∀ u text p, (u, text) ∈ t.session.documents.entries → u.toPath? = some p →
      ⟨u, text⟩ ∈ t.session.sources t.disk ∧
        ∀ file ∈ t.session.sources t.disk, ∀ q, file.uri.toPath? = some q → (q == p) = true →
          file = ⟨u, text⟩) ∧
    (∀ text u, Uri.ofText? text = some u → u.scheme = "file".toList →
      u.authority = some .empty → u.IsSpelled → u.IsCanonical) ∧
    (∀ p u, Uri.ofPath? p = some u → Path.above ∉ p.names → u.IsCanonical) ∧
    (∀ u p text, u.reread? = some u → u.toPath? = some p → p.isSourceFile = true →
      Path.above ∉ p.names → ¬ u.IsSpelled →
        ∃ disk folder, ¬ ((run disk [.initialized none none [folder],
          .handled (.opened u text)]).session.sources disk).Pairwise fun f g =>
            ∀ p q, f.uri.toPath? = some p → g.uri.toPath? = some q → (p == q) = false) := by
  intro t
  have hfresh : Session.IsCanonical {} := by
    intro d hd
    cases hd
  -- The run keeps documents canonical; all else follows from that.
  have hcanonical : t.session.IsCanonical := kept_foldl kept_isCanonical hfresh hactions
  refine ⟨pairwise_paths_sources hcanonical t.disk, ?_, ?_, ?_, ?_⟩
  · intro u text p hopen hp
    refine ⟨mem_sources_of_open hcanonical hopen t.disk, ?_⟩
    intro file hfile q hq hsame
    exact eq_buffer_of_path hcanonical hopen hp hfile hq hsame
  · intro text u hread hscheme hlocal hspelled
    exact ⟨(Uri.isFile_of_ofText? hread hscheme).reread?_of_local hlocal, hspelled⟩
  · intro p u hu habove
    exact Uri.isCanonical_of_ofPath? hu habove
  · intro u p text hreread hp hsource habove hspelled
    exact not_pairwise_paths_sources hreread hp hsource habove hspelled text

/-- A directory with one program. -/
def oneProgram : FileNode :=
  .directory
    [((ofText "ws".toList).spelling,
      .directory [((ofText "a.src".toList).spelling,
        .file (some "DEF old()\nEND\n".toList))])]

/-- The program is open with another text than its file has, and only that text is searched. -/
theorem sources_distinct_of_canonical_program :
    let u : Uri := ⟨"file".toList, some .empty, "/ws/a.src".toList, []⟩
    let fresh : Text := "DEF fresh()\nEND\n".toList
    let actions : List Action :=
      [.initialized none (some "/ws".toList) [], .scanTaken, .scanApplied 0,
        .handled (.opened u fresh)]
    let t := run oneProgram actions
    (∀ action ∈ actions, ∀ v ∈ action.document?, v.IsCanonical) ∧
      ⟨u, fresh⟩ ∈ t.session.sources t.disk ∧
      ⟨u, "DEF old()\nEND\n".toList⟩ ∉ t.session.sources t.disk := by
  intro u fresh actions
  -- The run is kept folded: its parts are evaluated one by one.
  dsimp only
  have hcanonical : u.IsCanonical :=
    Uri.isCanonical_of_ofPath? (p := .ofText "/ws/a.src".toList) (by decide +kernel)
      (by decide +kernel)
  have hactions : ∀ action ∈ actions, ∀ v ∈ action.document?, v.IsCanonical := by
    simpa [actions, Action.document?, Event.document?] using hcanonical
  have hopen : (u, fresh) ∈ (run oneProgram actions).session.documents.entries := by
    decide +kernel
  obtain ⟨p, hp⟩ : ∃ p, u.toPath? = some p := Option.isSome_iff_exists.mp (by decide +kernel)
  obtain ⟨-, hbuffers, -⟩ := sources_distinct_of_canonical hactions
  obtain ⟨hmem, honly⟩ := hbuffers u fresh p hopen hp
  refine ⟨hactions, hmem, fun hold => ?_⟩
  have hsame := honly _ hold p hp BEq.rfl
  exact absurd (congrArg SourceFile.text hsame) (by decide +kernel)

/-- A document whose URI has an escape without need is searched beside the file of its path. -/
theorem sources_twice_of_escape :
    let u : Uri := ⟨"file".toList, some .empty, "/ws/%61.src".toList, []⟩
    let v : Uri := ⟨"file".toList, some .empty, "/ws/a.src".toList, []⟩
    let fresh : Text := "DEF fresh()\nEND\n".toList
    let actions : List Action :=
      [.initialized none (some "/ws".toList) [], .handled (.opened u fresh)]
    let t := run oneProgram actions
    Uri.ofText? "file:///ws/%61.src".toList = some u ∧ u.toPath?.isSome = true ∧
      u.toPath?.map Path.names = v.toPath?.map Path.names ∧
      ⟨u, fresh⟩ ∈ t.session.sources t.disk ∧
      ⟨v, "DEF old()\nEND\n".toList⟩ ∈ t.session.sources t.disk := by
  intro u v fresh actions
  dsimp only
  have hreread : (run oneProgram actions).session.reread = [(u, fresh)] := by decide +kernel
  have hroots : (run oneProgram actions).session.roots = [.ofText "/ws".toList] :=
    Path.spellings_injective (by decide +kernel)
  refine ⟨by decide +kernel, by decide +kernel, by decide +kernel, ?_, ?_⟩
  · rw [sources_eq, mem_append, mem_buffers, hreread]
    exact .inl mem_cons_self
  · have hproper : oneProgram.isProper = true := by decide +kernel
    have hfind : oneProgram.find (.ofText "/ws".toList) = .ok (.directory
        [((Path.ofText "a.src".toList).spelling, .file (some "DEF old()\nEND\n".toList))]) := rfl
    rw [sources_eq, mem_append]
    refine .inr (child_mem_otherFiles hproper (hroots ▸ mem_singleton_self _) hfind
      mem_cons_self (by decide +kernel) (by decide +kernel) ?_)
    rw [hreread]
    decide +kernel

end BusyTimeline

end KrlWorkbench
