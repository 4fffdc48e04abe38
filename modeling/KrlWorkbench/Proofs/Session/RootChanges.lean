import KrlWorkbench.Proofs.Session.RootScans

/-!
# Tables after a change of folders

When folders come and go and the roots become others, all tables are dropped, the open documents are
filed anew and the files under the new roots are read.  What is left is exact (`Session.IsExact`):
the open documents with the tables of their texts, and the other readable source files under the new
roots with the tables of what is on disk.

As in every change of roots, the open documents are filed under what their URIs are read as, so this
holds for the URIs that are read back from their own text, and for no other class of URIs.
-/

namespace KrlWorkbench

open List Text

variable {added removed : List Uri}

namespace Session

open SymbolStore

/-! ## Roots -/

/-- The roots after a change of folders: the old ones that stay, then the added ones, each once. -/
def rootsAfter (roots : List Path) (added removed : List Uri) : List Path :=
  (roots.filter (fun root => !(removed.filterMap Uri.toPath?).contains root) ++
    added.filterMap Uri.toPath?).eraseDups

/-- No two roots are the same name by name. -/
def DistinctRoots (roots : List Path) : Prop :=
  roots.Pairwise fun a b => (b == a) = false

/-- Roots that are added one by one are those without repetitions. -/
lemma eraseDups_eq_foldl_addRoot (roots : List Path) :
    roots.eraseDups = roots.foldl addRoot [] := by
  have hloop : ∀ (rest kept : List Path),
      List.eraseDupsBy.loop (· == ·) rest kept = rest.foldl addRoot kept.reverse := by
    intro rest
    induction rest with
    | nil => exact fun _ => rfl
    | cons root rest ih =>
      intro kept
      have hcontains : kept.reverse.contains root = kept.any (root == ·) := by
        rw [contains_reverse, contains_eq_any_beq]
      rw [List.eraseDupsBy.loop, foldl_cons, addRoot, hcontains]
      cases kept.any (root == ·) with
      | true => exact ih kept
      | false => simpa using ih (root :: kept)
  exact hloop roots []

lemma foldl_addRoot_of_distinctRoots (kept : List Path) {roots : List Path}
    (h : DistinctRoots (kept ++ roots)) : roots.foldl addRoot kept = kept ++ roots := by
  induction roots generalizing kept with
  | nil => exact (append_nil kept).symm
  | cons root roots ih =>
    have hnew : kept.contains root = false := by
      rw [contains_eq_any_beq, any_eq_false]
      intro other hother
      rw [Bool.not_eq_true]
      exact (pairwise_append.mp h).2.2 other hother root mem_cons_self
    have hadd : addRoot kept root = kept ++ [root] := by
      rw [addRoot, hnew]
      rfl
    rw [append_cons] at h ⊢
    rw [foldl_cons, hadd, ih _ h]

lemma distinctRoots_rootsAfter (roots : List Path) (added removed : List Uri) :
    DistinctRoots (rootsAfter roots added removed) :=
  Dedup.pairwise_eraseDups _

variable {s : Session}

lemma changeFolders_eq (h : DistinctRoots s.roots) (added removed : List Uri) :
    s.changeFolders added removed = s.setRoots (rootsAfter s.roots added removed) := by
  have hkept : DistinctRoots
      (s.roots.filter fun root => !(removed.filterMap Uri.toPath?).contains root) :=
    h.sublist filter_sublist
  rw [rootsAfter, eraseDups_eq_foldl_addRoot, foldl_append, foldl_addRoot_of_distinctRoots [] hkept]
  rfl

lemma distinctRoots_setRoots (h : DistinctRoots s.roots) {roots : List Path}
    (hroots : DistinctRoots roots) : DistinctRoots (s.setRoots roots).roots := by
  rw [setRoots]
  split
  · exact h
  · exact hroots

lemma distinctRoots_changeFolders (h : DistinctRoots s.roots) (added removed : List Uri) :
    DistinctRoots (s.changeFolders added removed).roots := by
  rw [changeFolders_eq h]
  exact distinctRoots_setRoots h (distinctRoots_rootsAfter _ _ _)

/-! ## Tables -/

/-- The tables of a session are those of its open documents and of the other readable source files
under its roots, and of nothing else. -/
structure IsExact (disk : FileNode) (s : Session) : Prop where
  stored : ∀ v table, s.store.table? v = some table ↔
    (∃ text, s.text? v = some text ∧ SymbolTable.collect text = table) ∨
      s.isOpen v = false ∧ ∃ u, u.text = v.text ∧ disk.IsSource s.roots (u, table)
  /-- No spelling has two tables. -/
  distinct : (s.store.files.entries.map fun e => e.1.text).Nodup
  /-- No source file is left out for want of a URI. -/
  named : ∀ path ∈ s.roots.flatMap disk.sourceFiles, ∃ u, Uri.ofPath? path = some u
  /-- Under roots that do not climb, a file has one URI. -/
  once : (∀ root ∈ s.roots, Path.above ∉ root.names) →
    ∀ file file', disk.IsSource s.roots file → disk.IsSource s.roots file' →
      ∀ p p', file.1.toPath? = some p → file'.1.toPath? = some p' → p.place = p'.place →
        file = file'

variable {disk : FileNode} {roots : List Path} {v : Uri} {table : SymbolTable}

lemma IsExact.buffersWin (h : IsExact disk s) : s.BuffersWin :=
  fun u text htext => (h.stored u _).mpr (.inl ⟨text, htext, rfl⟩)

/-- Other roots leave no table but those of the open documents. -/
lemma Coherent.table?_setRoots_of_closed (h : s.Coherent) (hroots : (roots == s.roots) = false)
    (hclosed : s.isOpen v = false) : (s.setRoots roots).store.table? v = none := by
  rw [Option.eq_none_iff_forall_ne_some]
  intro table htable
  obtain ⟨u, text, w, hmem, hread, hw⟩ := exists_reread?_of_table?_setRoots hroots htable
  have htext : s.text? u = some text := UriMap.get?_eq_some_iff.mpr ⟨u, hmem, rfl⟩
  have hu : u.Rereads := h.rereads u text htext
  rw [Uri.Rereads, hread, Option.map_some, Option.some.injEq, hw] at hu
  rw [isOpen_congr hu, isOpen, htext] at hclosed
  cases hclosed

/-- What a scan brings under a spelling that had no table and is not open. -/
lemma table?_rescan_of_closed (hproper : disk.isProper = true) (hclosed : s.isOpen v = false)
    (hnone : s.store.table? v = none) :
    (s.rescan disk).store.table? v = some table ↔
      ∃ u, u.text = v.text ∧ disk.IsSource s.roots (u, table) := by
  have hfound : ∀ file, file ∈ (s.scan disk).filter (fun f => !s.isOpen f.1) ↔
      s.isOpen file.1 = false ∧ disk.IsSource s.roots file := by
    intro file
    rw [mem_filter, mem_scan_iff hproper, Bool.not_eq_true']
    tauto
  rw [rescan, applyScan_eq]
  constructor
  · intro htable
    rw [table?_replaceAll, hnone, Option.or_none, Option.map_eq_some_iff] at htable
    obtain ⟨⟨u, table⟩, hlast, rfl⟩ := htable
    have hmem := mem_reverse.mp (mem_of_find?_eq_some hlast)
    exact ⟨u, by simpa using find?_some hlast, ((hfound _).mp hmem).2⟩
  · rintro ⟨u, hu, hsource⟩
    refine table?_replaceAll_of_mem ((hfound _).mpr ⟨?_, hsource⟩) hu ?_
    · rwa [isOpen_congr hu]
    · intro file hfile htext
      rw [((hfound file).mp hfile).2.eq_of_text_eq hsource (htext.trans hu.symm)]

/-- **A scan makes tables exact** if only open documents had any. -/
lemma Coherent.isExact_rescan (h : s.Coherent) (hproper : disk.isProper = true)
    (hnone : ∀ v, s.isOpen v = false → s.store.table? v = none) : IsExact disk (s.rescan disk) where
  stored v table := by
    change _ ↔ (∃ text, s.text? v = some text ∧ _) ∨
      s.isOpen v = false ∧ ∃ u, u.text = v.text ∧ disk.IsSource s.roots (u, table)
    cases htext : s.text? v with
    | some text =>
      have hopen : s.isOpen v = true := by rw [isOpen, htext, Option.isSome_some]
      have hwin : (s.rescan disk).store.table? v = some (SymbolTable.collect text) :=
        (h.applyScan _).buffersWin v text htext
      rw [hwin, hopen]
      simp
    | none =>
      have hclosed : s.isOpen v = false := by rw [isOpen, htext, Option.isSome_none]
      rw [table?_rescan_of_closed hproper hclosed (hnone v hclosed), hclosed]
      simp
  distinct := (s.rescan disk).store.files.distinct
  named path hpath := by
    obtain ⟨root, -, hlisted⟩ := mem_flatMap.mp hpath
    obtain ⟨content, hfind⟩ := (FileNode.isBelow_of_mem_sourceFiles hproper hlisted).file
    exact Uri.exists_ofPath? (FileNode.isAbsolute_of_find hfind)
  once hroots _ _ hfile hfile' _ _ hp hp' hplace :=
    ScannedTimeline.eq_of_place_eq hproper hfile hfile' hroots hroots hp hp' hplace

lemma Coherent.isExact_setRoots (h : s.Coherent) (hproper : disk.isProper = true)
    (hroots : (roots == s.roots) = false) : IsExact disk ((s.setRoots roots).rescan disk) := by
  refine (h.setRoots roots).isExact_rescan hproper fun v hclosed => ?_
  refine h.table?_setRoots_of_closed hroots ?_
  rwa [isOpen, text?, (documents_setRoots s roots).1] at hclosed

end Session

/-! ## Folders that change -/

namespace BusyTimeline

open Session
open ScannedTimeline (twoFolders emptyList isSource_child)

variable {t : BusyTimeline}

/-- The timeline after a change of folders that is handled to its end. -/
def afterFolders (t : BusyTimeline) (added removed : List Uri) : BusyTimeline :=
  t.step (.handled (.foldersChanged added removed))

lemma distinctRoots_handle {t : Timeline} (h : DistinctRoots t.session.roots) (event : Event) :
    DistinctRoots (t.handle event).1.session.roots := by
  cases event with
  | opened u text => exact h
  | changed u texts =>
    rw [Timeline.handle]
    cases texts.getLast? <;> exact h
  | saved u text =>
    simp only [Timeline.handle]
    cases text.or (t.session.text? u) <;> exact h
  | closed u => exact h
  | configured settings =>
    simp only [Timeline.handle]
    unfold Timeline.configure
    split <;> exact h
  | foldersChanged added removed => exact distinctRoots_changeFolders h added removed

section Distinct

variable (h : DistinctRoots t.session.roots)
include h

/-- **What one action keeps**: roots stay distinct. -/
lemma distinctRoots_step (action : Action) : DistinctRoots (t.step action).session.roots := by
  cases action with
  | initialized rootUri rootPath folders =>
    refine distinctRoots_setRoots h ?_
    rw [initialRoots, ← eraseDups_eq_foldl_addRoot]
    exact Dedup.pairwise_eraseDups _
  | handled event => exact distinctRoots_handle h event
  | refoldered added removed => exact distinctRoots_changeFolders h added removed
  | diskChanged disk => exact h
  | scanTaken => exact h
  | scanApplied index =>
    rw [step]
    cases t.scans[index]? <;> exact h

/-- **What a run keeps.** -/
lemma distinctRoots_foldl (actions : List Action) :
    DistinctRoots (actions.foldl step t).session.roots := by
  induction actions generalizing t with
  | nil => exact h
  | cons action actions ih => exact ih (distinctRoots_step h action)

/-- A change of folders installs the roots that are due and reads the disk. -/
lemma session_afterFolders (added removed : List Uri) :
    (t.afterFolders added removed).session =
      (t.session.setRoots (rootsAfter t.session.roots added removed)).rescan t.disk := by
  rw [← changeFolders_eq h]
  rfl

/-- A change of folders alters the roots. -/
def AltersRoots (t : BusyTimeline) (added removed : List Uri) : Prop :=
  ((t.afterFolders added removed).session.roots == t.session.roots) = false

lemma altersRoots_iff : t.AltersRoots added removed ↔
      (rootsAfter t.session.roots added removed == t.session.roots) = false := by
  rw [AltersRoots, session_afterFolders h]
  cases hroots : rootsAfter t.session.roots added removed == t.session.roots with
  | true =>
    rw [setRoots_of_beq hroots]
    change (t.session.roots == t.session.roots) = false ↔ _
    rw [show (t.session.roots == t.session.roots) = true from BEq.rfl]
  | false =>
    rw [setRoots_of_not_beq hroots]
    exact iff_of_true hroots rfl

lemma roots_afterFolders (halters : t.AltersRoots added removed) :
    (t.afterFolders added removed).session.roots = rootsAfter t.session.roots added removed := by
  rw [session_afterFolders h, setRoots_of_not_beq ((altersRoots_iff h).mp halters)]
  rfl

end Distinct

lemma distinctRoots_run (disk : FileNode) (actions : List Action) :
    DistinctRoots (run disk actions).session.roots := by
  refine distinctRoots_foldl ?_ actions
  exact List.Pairwise.nil

/-- **A change of folders leaves exact tables.** -/
lemma isExact_afterFolders {disk : FileNode} {actions : List Action}
    (hactions : ∀ action ∈ actions, ∀ u ∈ action.document?, u.Rereads)
    (halters : (run disk actions).AltersRoots added removed)
    (hproper : (run disk actions).disk.isProper = true) :
    IsExact (run disk actions).disk ((run disk actions).afterFolders added removed).session := by
  have hdistinct := distinctRoots_run disk actions
  rw [session_afterFolders hdistinct]
  exact (coherent_run disk hactions).isExact_setRoots hproper
    ((altersRoots_iff hdistinct).mp halters)

lemma altersRoots_first {disk : FileNode} {u folder : Uri} {root : Path}
    (hfolder : folder.toPath? = some root) :
    (run disk [.handled (.opened u [])]).AltersRoots [folder] [] := by
  rw [altersRoots_iff (distinctRoots_run disk _)]
  change (rootsAfter [] [folder] [] == []) = false
  rw [rootsAfter, filterMap_cons_some hfolder]
  rfl

/-- **Tables after a change of folders.**  From whatever a session has come to, a change of folders
that alters the roots leaves the old ones without the removed folders and then the added ones, each
once.  The tables are then those of the texts of the open documents and of the other readable source
files under the new roots, and of nothing else, if only documents of URIs that are read back were
given a text; a class with any other URI has a session in which this fails.  All local files are
read back. -/
theorem isExact_afterFolders_iff_rereads (uris : Uri → Prop) :
    (∀ disk actions added removed, (run disk actions).AltersRoots added removed →
      ((run disk actions).afterFolders added removed).session.roots =
        rootsAfter (run disk actions).session.roots added removed) ∧
    ((∀ disk actions added removed, (∀ action ∈ actions, ∀ u ∈ action.document?, uris u) →
        (run disk actions).disk.isProper = true → (run disk actions).AltersRoots added removed →
        IsExact (run disk actions).disk ((run disk actions).afterFolders added removed).session) ↔
      ∀ u, uris u → u.Rereads) ∧
    (∀ text u, Uri.ofText? text = some u → u.scheme = "file".toList →
      u.authority = some .empty → u.Rereads) := by
  refine ⟨?_, ⟨?_, ?_⟩, ?_⟩
  · intro disk actions added removed halters
    exact roots_afterFolders (distinctRoots_run disk actions) halters
  · intro hexact u hu
    obtain ⟨root, hroot⟩ : ∃ root, workspaceFolder.toPath? = some root :=
      Option.isSome_iff_exists.mp (by decide)
    have hafter := hexact .empty [.handled (.opened u [])] [workspaceFolder] []
      (by simpa [Action.document?, Event.document?] using hu) rfl (altersRoots_first hroot)
    exact rereads_of_buffersWin .empty hroot ((buffersWin_applyScan _ _).mp hafter.buffersWin)
  · intro hrereads disk actions added removed hactions hproper halters
    refine isExact_afterFolders (fun action haction u hu => ?_) halters hproper
    exact hrereads u (hactions action haction u hu)
  · intro text u hread hscheme hlocal
    exact Uri.rereads_of_ofText? hread hscheme hlocal

/-- One folder goes, another comes and a third is named again, while a document is open that has
another text than its file. -/
theorem isExact_afterFolders_iff_rereads_replaced :
    let folder := fun (path : String) => Uri.mk "file".toList (some .empty) path.toList []
    let x := folder "/a/x.dat"
    let y := folder "/b/y.dat"
    let text : Text := "DEF fresh()\nEND".toList
    let actions : List Action :=
      [.initialized (some (folder "/c")) none [folder "/a"], .handled (.opened y text)]
    let t := run twoFolders actions
    let added := [folder "/b", folder "/a"]
    let removed := [folder "/c"]
    (∀ action ∈ actions, ∀ u ∈ action.document?, u = y) ∧ t.disk.isProper = true ∧
      t.AltersRoots added removed ∧
      (t.afterFolders added removed).session.roots = [.ofText "/a".toList, .ofText "/b".toList] ∧
      (t.afterFolders added removed).session.store.table? x =
        some (SymbolTable.collect emptyList) ∧
      (t.afterFolders added removed).session.store.table? y = some (SymbolTable.collect text) := by
  intro folder x y text actions
  dsimp only
  obtain ⟨hinstalled, hiff, hlocal⟩ := isExact_afterFolders_iff_rereads (· = y)
  have hy : y.Rereads := hlocal "file:///b/y.dat".toList y (by decide +kernel) rfl rfl
  have honly : ∀ action ∈ actions, ∀ u ∈ action.document?, u = y := by
    simp [actions, Action.document?, Event.document?]
  have hproper : twoFolders.isProper = true := by decide +kernel
  have halters :
      (run twoFolders actions).AltersRoots [folder "/b", folder "/a"] [folder "/c"] := by
    rw [altersRoots_iff (distinctRoots_run _ _)]
    decide +kernel
  have hroots : ((run twoFolders actions).afterFolders [folder "/b", folder "/a"]
      [folder "/c"]).session.roots = [.ofText "/a".toList, .ofText "/b".toList] := by
    rw [hinstalled _ _ _ _ halters]
    exact Path.spellings_injective (by decide +kernel)
  have hexact := hiff.mpr (by rintro u rfl; exact hy) twoFolders actions
    [folder "/b", folder "/a"] [folder "/c"] honly hproper halters
  refine ⟨honly, hproper, halters, hroots, ?_, ?_⟩
  · refine (hexact.stored x _).mpr (.inr ⟨by decide +kernel, x, rfl, ?_⟩)
    rw [hroots]
    exact isSource_child hproper mem_cons_self rfl mem_cons_self (by decide +kernel)
      (by decide +kernel)
  · exact (hexact.stored y _).mpr (.inl ⟨text, by decide +kernel, rfl⟩)

/-- A document behind a host is open and has no table; and a file has two tables under a root and
another that climbs to it. -/
theorem inexact_afterFolders :
    let u : Uri := ⟨"file".toList, some (.ofHost (some (.long ⟨[0, 0, 0, 0, 0, 0, 0, 1]⟩))),
      "/C:/a.src".toList, []⟩
    let text : Text := "GLOBAL DEF helper()\nEND\n".toList
    let remote := (run .empty [.handled (.opened u text)]).afterFolders [workspaceFolder] []
    let a : Uri := ⟨"file".toList, some .empty, "/a".toList, []⟩
    let x : Uri := ⟨"file".toList, some .empty, "/a/x.dat".toList, []⟩
    let x' : Uri := ⟨"file".toList, some .empty, "/b/../a/x.dat".toList, []⟩
    let climbing := (run twoFolders
      [.initialized none (some "/b/../a".toList) []]).afterFolders [a] []
    (Uri.ofText? "file://[::1]//C:/a.src".toList = some u ∧
        remote.session.text? u = some text ∧ remote.session.store.table? u = none) ∧
      x ≠ x' ∧ x.toPath?.map Path.place = x'.toPath?.map Path.place ∧
      climbing.session.store.table? x = some (SymbolTable.collect emptyList) ∧
      climbing.session.store.table? x' = some (SymbolTable.collect emptyList) := by
  intro u text remote a x x'
  dsimp only
  have hopen : ((run .empty [.handled (.opened u text)]).session.changeFolders [workspaceFolder]
      []).isOpen u = true := by decide +kernel
  have hlost : remote.session.store.table? u = none := by
    refine (table?_applyScan_of_isOpen _ _ hopen).trans ?_
    decide +kernel
  have hproper : twoFolders.isProper = true := by decide +kernel
  have halters :
      (run twoFolders [.initialized none (some "/b/../a".toList) []]).AltersRoots [a] [] := by
    rw [altersRoots_iff (distinctRoots_run _ _)]
    decide +kernel
  have hroots : ((run twoFolders [.initialized none (some "/b/../a".toList) []]).afterFolders [a]
      []).session.roots = [.ofText "/b/../a".toList, .ofText "/a".toList] := by
    rw [roots_afterFolders (distinctRoots_run _ _) halters]
    exact Path.spellings_injective (by decide +kernel)
  have hexact := isExact_afterFolders (by simp [Action.document?]) halters hproper
  refine ⟨⟨by decide +kernel, by decide +kernel, hlost⟩, by decide +kernel, by decide +kernel, ?_,
    ?_⟩
  · refine (hexact.stored x _).mpr (.inr ⟨by decide +kernel, x, rfl, ?_⟩)
    rw [hroots]
    exact isSource_child hproper (mem_cons_of_mem _ mem_cons_self) rfl mem_cons_self
      (by decide +kernel) (by decide +kernel)
  · refine (hexact.stored x' _).mpr (.inr ⟨by decide +kernel, x', rfl, ?_⟩)
    rw [hroots]
    exact isSource_child hproper mem_cons_self rfl mem_cons_self (by decide +kernel)
      (by decide +kernel)

end BusyTimeline
end KrlWorkbench
