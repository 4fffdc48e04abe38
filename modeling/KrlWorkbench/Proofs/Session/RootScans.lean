import KrlWorkbench.Proofs.Session.DiskFiles
import Mathlib.Data.List.InsertIdx

/-!
# Which files have tables

A scan fixes the roots when it is taken and is put in place later, when the roots may be others.
Other roots drop all tables, but not the scans that are under way.  So the tables that are there are
those of the scans put in place since the roots last changed, whatever roots these were taken under:
a scan of roots that are gone brings their files back.

The roots of scans are noted beside the timeline.  Each scan is that of the roots noted for it, and
what is stored is what the noted scans found (`ScannedTimeline.Keeps`).
-/

namespace KrlWorkbench

open List Text

variable {actions : List Action} {roots : List Path}

/-! ## Storing what cannot differ -/

namespace SymbolStore

variable {store : SymbolStore} {u : Uri} {table : SymbolTable} {file : Uri × SymbolTable}

/-- A file that was there with the same table stays as it is. -/
lemma mem_entries_replace (h : ∀ e ∈ store.files.entries, e.1.text = u.text → e = (u, table)) :
    file ∈ (store.replace u table).files.entries ↔
      file = (u, table) ∨ file ∈ store.files.entries := by
  rw [(UriMap.lists_entries _).mem_iff]
  change (store.files.insert u table).find? file.1.text = some file ↔ _
  rw [UriMap.find?_insert]
  by_cases htext : file.1.text = u.text
  · rw [if_pos htext, Option.some.injEq, eq_comm]
    exact (or_iff_left_of_imp fun hmem => h file hmem htext).symm
  · rw [if_neg htext, ← (UriMap.lists_entries _).mem_iff]
    exact (or_iff_right fun heq => htext (by rw [heq])).symm

/-- Files of which no two are spelled the same and differ are all there in the end. -/
lemma mem_entries_replaceAll {P : Uri × SymbolTable → Prop}
    (hsame : ∀ {e e'}, P e → P e' → e.1.text = e'.1.text → e = e')
    {files : List (Uri × SymbolTable)} (hfiles : ∀ e ∈ files, P e)
    (hstore : ∀ e ∈ store.files.entries, P e) :
    file ∈ (store.replaceAll files).files.entries ↔ file ∈ files ∨ file ∈ store.files.entries := by
  induction files generalizing store with
  | nil => simp [replaceAll]
  | cons f files ih =>
    have hf : P f := hfiles f (by simp)
    have hmem : ∀ {e}, e ∈ (store.replace f.1 f.2).files.entries ↔
        e = f ∨ e ∈ store.files.entries :=
      mem_entries_replace fun e he htext => hsame (hstore e he) hf htext
    have hnext : ∀ e ∈ (store.replace f.1 f.2).files.entries, P e := by
      intro e he
      rcases hmem.mp he with rfl | he
      · exact hf
      · exact hstore e he
    refine (ih (forall_mem_cons.mp hfiles).2 hnext).trans ?_
    rw [hmem, mem_cons]
    tauto

end SymbolStore

/-! ## Noting the roots of scans -/

/-- Whether an action leaves the documents and the disk alone. -/
def Action.isAboutRoots : Action → Bool
  | .initialized _ _ _ | .refoldered _ _ | .scanTaken | .scanApplied _ => true
  | .handled _ | .diskChanged _ => false

/-- A timeline with the roots of its scans. -/
structure ScannedTimeline extends BusyTimeline where
  /-- The roots of the scans that are under way. -/
  taken : List (List Path) := []
  /-- The roots of the scans that were put in place since the roots last changed. -/
  placed : List (List Path) := []

namespace ScannedTimeline

open Session

/-- What an action does. -/
def step (t : ScannedTimeline) (action : Action) : ScannedTimeline where
  toBusyTimeline := t.toBusyTimeline.step action
  taken :=
    match action with
    | .scanTaken => t.taken ++ [t.session.roots]
    | .scanApplied index => t.taken.eraseIdx index
    | _ => t.taken
  placed :=
    match action with
    | .scanApplied index => t.placed ++ t.taken[index]?.toList
    | _ => if (t.toBusyTimeline.step action).session.roots == t.session.roots then t.placed else []

/-- A fresh timeline after some actions. -/
def run (disk : FileNode) (actions : List Action) : ScannedTimeline :=
  actions.foldl step { disk := disk }

/-- The timeline is the one without notes. -/
lemma toBusyTimeline_foldl (t : ScannedTimeline) (actions : List Action) :
    (actions.foldl step t).toBusyTimeline = actions.foldl BusyTimeline.step t.toBusyTimeline := by
  induction actions generalizing t with
  | nil => rfl
  | cons action actions ih => exact ih (t.step action)

/-- What a scan finds under some roots if no document is open. -/
def scanUnder (disk : FileNode) (roots : List Path) : List (Uri × SymbolTable) :=
  scan { roots := roots } disk

lemma mem_scanUnder {disk : FileNode} (hproper : disk.isProper = true) {file : Uri × SymbolTable} :
    file ∈ scanUnder disk roots ↔ disk.IsSource roots file :=
  (mem_scan_iff hproper).trans (and_iff_right rfl)

lemma scan_eq_scanUnder {s : Session} (hclosed : ∀ u, s.isOpen u = false) (disk : FileNode) :
    s.scan disk = scanUnder disk s.roots := by
  have hopen : ∀ u, s.isOpen u = isOpen { roots := s.roots } u := hclosed
  simp only [scanUnder, scan, hopen]

/-- Scans are those of the roots noted for them, and what is stored is what scans found. -/
structure Keeps (disk : FileNode) (t : ScannedTimeline) : Prop where
  disk_eq : t.disk = disk
  closed : t.session.documents.entries = []
  scans : t.scans = t.taken.map (scanUnder disk)
  stored : ∀ file, file ∈ t.session.store.files.entries ↔
    ∃ roots ∈ t.placed, disk.IsSource roots file

variable {disk : FileNode} {t : ScannedTimeline}

lemma keeps_fresh (disk : FileNode) : Keeps disk { disk := disk } where
  disk_eq := rfl
  closed := rfl
  scans := rfl
  stored file := by
    constructor
    · intro h
      cases h
    · rintro ⟨roots, h, -⟩
      cases h

lemma Keeps.isOpen_eq_false (h : Keeps disk t) (u : Uri) : t.session.isOpen u = false := by
  rw [isOpen, text?, UriMap.get?, UriMap.find?, h.closed]
  rfl

/-- Other roots drop all tables. -/
lemma Keeps.setRoots (h : Keeps disk t) (roots : List Path) :
    Keeps disk { t with
      session := t.session.setRoots roots
      placed := if (t.session.setRoots roots).roots == t.session.roots then t.placed else [] } := by
  by_cases hroots : (roots == t.session.roots) = true
  · rw [setRoots_of_beq hroots, if_pos BEq.rfl]
    exact ⟨h.disk_eq, h.closed, h.scans, h.stored⟩
  · have hreread : t.session.rereadTables = [] := by
      rw [rereadTables, reread, h.closed]
      rfl
    rw [setRoots_of_not_beq (by simpa using hroots), if_neg hroots, hreread]
    refine ⟨h.disk_eq, h.closed, h.scans, (keeps_fresh disk).stored⟩

lemma placed_scanTaken (t : ScannedTimeline) : (t.step .scanTaken).placed = t.placed :=
  if_pos (BEq.rfl (a := t.session.roots))

lemma Keeps.scanTaken (h : Keeps disk t) : Keeps disk (t.step .scanTaken) := by
  refine ⟨h.disk_eq, h.closed, ?_, ?_⟩
  · change t.scans ++ [t.session.scan t.disk] = (t.taken ++ [t.session.roots]).map _
    rw [h.disk_eq, scan_eq_scanUnder h.isOpen_eq_false, h.scans, map_append, map_singleton]
  · rw [placed_scanTaken]
    exact h.stored

section Proper

variable (hproper : disk.isProper = true)
include hproper

/-- What a scan found is there in the end, with what was there. -/
lemma Keeps.scanApplied (h : Keeps disk t) (index : Nat) :
    Keeps disk (t.step (.scanApplied index)) := by
  have hscan : t.scans[index]? = t.taken[index]?.map (scanUnder disk) := by
    rw [h.scans, getElem?_map]
  cases htaken : t.taken[index]? with
  | none =>
    rw [htaken, Option.map_none] at hscan
    have hsame : t.step (.scanApplied index) = t := by
      simp only [ScannedTimeline.step, BusyTimeline.step, hscan, htaken, Option.toList_none,
        append_nil, eraseIdx_of_length_le (List.getElem?_eq_none_iff.mp htaken)]
    rwa [hsame]
  | some roots =>
    rw [htaken, Option.map_some] at hscan
    have hall : (scanUnder disk roots).filter (fun f => !t.session.isOpen f.1) =
        scanUnder disk roots :=
      filter_eq_self.mpr fun f _ => by rw [h.isOpen_eq_false, Bool.not_false]
    have hstep : t.step (.scanApplied index) =
        { t with
          session := { t.session with store := t.session.store.replaceAll (scanUnder disk roots) }
          scans := t.scans.eraseIdx index
          taken := t.taken.eraseIdx index
          placed := t.placed ++ [roots] } := by
      simp only [ScannedTimeline.step, BusyTimeline.step, hscan, applyScan_eq, hall, htaken,
        Option.toList_some]
    rw [hstep]
    refine ⟨h.disk_eq, h.closed, ?_, ?_⟩
    · rw [h.scans, eraseIdx_map]
    · intro file
      -- Whatever roots files were found under, those of one spelling are one file.
      rw [SymbolStore.mem_entries_replaceAll (P := fun file => ∃ roots, disk.IsSource roots file)]
      · rw [mem_scanUnder hproper, h.stored]
        simp only [mem_append, mem_singleton, or_and_right, exists_or, exists_eq_left]
        exact or_comm
      · rintro e e' ⟨_, he⟩ ⟨_, he'⟩ htext
        exact he.eq_of_text_eq he' htext
      · intro e he
        exact ⟨roots, (mem_scanUnder hproper).mp he⟩
      · intro e he
        obtain ⟨roots', -, hsource⟩ := (h.stored e).mp he
        exact ⟨roots', hsource⟩

/-- **What one action keeps.** -/
lemma Keeps.step (h : Keeps disk t) {action : Action} (haction : action.isAboutRoots = true) :
    Keeps disk (t.step action) := by
  cases action with
  | initialized rootUri rootPath folders => exact h.setRoots _
  | handled event => cases haction
  | refoldered added removed => exact h.setRoots _
  | diskChanged disk => cases haction
  | scanTaken => exact h.scanTaken
  | scanApplied index => exact h.scanApplied hproper index

/-- **What a run keeps.** -/
lemma Keeps.foldl (h : Keeps disk t) (hactions : ∀ action ∈ actions, action.isAboutRoots = true) :
    Keeps disk (actions.foldl ScannedTimeline.step t) := by
  induction actions generalizing t with
  | nil => exact h
  | cons action actions ih =>
    exact ih (h.step hproper (hactions action (by simp))) (forall_mem_cons.mp hactions).2

lemma keeps_run (hactions : ∀ action ∈ actions, action.isAboutRoots = true) :
    Keeps disk (run disk actions) :=
  (keeps_fresh disk).foldl hproper hactions

end Proper

/-! ## Roots that change at rest -/

/-- Whether an action leaves the roots as they are while a scan is under way. -/
def isAtRest (t : ScannedTimeline) : Action → Bool
  | .initialized _ _ _ | .refoldered _ _ => t.scans.isEmpty
  | _ => true

/-- Whether the roots change only while no scan is under way. -/
def allAtRest (t : ScannedTimeline) : List Action → Bool
  | [] => true
  | action :: actions => t.isAtRest action && allAtRest (t.step action) actions

/-- Scans were taken under the present roots. -/
structure IsCurrent (t : ScannedTimeline) : Prop where
  taken : ∀ roots ∈ t.taken, roots = t.session.roots
  placed : ∀ roots ∈ t.placed, roots = t.session.roots

lemma IsCurrent.setRoots (h : t.IsCurrent) (hrest : t.taken = []) (roots : List Path) :
    IsCurrent { t with
      session := t.session.setRoots roots
      placed := if (t.session.setRoots roots).roots == t.session.roots then t.placed else [] } := by
  by_cases hroots : (roots == t.session.roots) = true
  · rw [setRoots_of_beq hroots, if_pos BEq.rfl]
    exact ⟨h.taken, h.placed⟩
  · rw [setRoots_of_not_beq (by simpa using hroots), if_neg hroots]
    exact ⟨by simp [hrest], by simp⟩

lemma IsCurrent.scanTaken (h : t.IsCurrent) : IsCurrent (t.step .scanTaken) := by
  constructor
  · exact forall_mem_append.mpr ⟨h.taken, fun _ => eq_of_mem_singleton⟩
  · rw [placed_scanTaken]
    exact h.placed

lemma IsCurrent.scanApplied (h : t.IsCurrent) (index : Nat) :
    IsCurrent (t.step (.scanApplied index)) := by
  have hroots : (t.step (.scanApplied index)).session.roots = t.session.roots := by
    change (t.toBusyTimeline.step (.scanApplied index)).session.roots = _
    rw [BusyTimeline.step]
    cases t.scans[index]? <;> rfl
  constructor
  · intro roots hmem
    rw [hroots]
    exact h.taken roots (mem_of_mem_eraseIdx hmem)
  · intro roots hmem
    rw [hroots]
    rcases mem_append.mp hmem with hmem | hmem
    · exact h.placed roots hmem
    · exact h.taken roots (mem_of_getElem? (Option.mem_toList.mp hmem))

/-- **What one action at rest keeps.** -/
lemma IsCurrent.step (h : t.IsCurrent) (hkeeps : Keeps disk t) {action : Action}
    (haction : action.isAboutRoots = true) (hrest : t.isAtRest action = true) :
    IsCurrent (t.step action) := by
  have htaken : t.scans.isEmpty = true → t.taken = [] := by
    intro hempty
    rw [hkeeps.scans, isEmpty_map] at hempty
    exact List.isEmpty_iff.mp hempty
  cases action with
  | initialized rootUri rootPath folders => exact h.setRoots (htaken hrest) _
  | handled event => cases haction
  | refoldered added removed => exact h.setRoots (htaken hrest) _
  | diskChanged disk => cases haction
  | scanTaken => exact h.scanTaken
  | scanApplied index => exact h.scanApplied index

/-- **What a run at rest keeps.** -/
lemma IsCurrent.foldl (hproper : disk.isProper = true) (h : t.IsCurrent) (hkeeps : Keeps disk t)
    (hactions : ∀ action ∈ actions, action.isAboutRoots = true)
    (hrest : t.allAtRest actions = true) : IsCurrent (actions.foldl ScannedTimeline.step t) := by
  induction actions generalizing t with
  | nil => exact h
  | cons action actions ih =>
    rw [allAtRest, Bool.and_eq_true] at hrest
    have haction := hactions action (by simp)
    exact ih (h.step hkeeps haction hrest.1) (hkeeps.step hproper haction)
      (forall_mem_cons.mp hactions).2 hrest.2

/-! ## Files of one place -/

/-- What a scan that was put in place found is stored. -/
lemma mem_stored_of_placed (hproper : disk.isProper = true)
    (hactions : ∀ action ∈ actions, action.isAboutRoots = true)
    (hplaced : roots ∈ (run disk actions).placed) {file : Uri × SymbolTable}
    (hsource : disk.IsSource roots file) :
    file ∈ (BusyTimeline.run disk actions).session.store.files.entries := by
  have hstored := ((keeps_run hproper hactions).stored file).mpr ⟨roots, hplaced, hsource⟩
  rwa [run, toBusyTimeline_foldl] at hstored

/-- Below roots that do not climb, the place of a file is the names of its path. -/
lemma place_eq_names_of_isSource (hproper : disk.isProper = true) {file : Uri × SymbolTable}
    (h : disk.IsSource roots file) (hroots : ∀ root ∈ roots, Path.above ∉ root.names) {p : Path}
    (hp : file.1.toPath? = some p) :
    Uri.ofPath? p = some file.1 ∧ p.isAbsolute = true ∧ p.place = p.names := by
  obtain ⟨path, hpath, text, -, hu, -⟩ := h
  obtain ⟨q, hq, hsame⟩ := Uri.exists_toPath?_of_ofPath? hu
  cases hp.symm.trans hq
  obtain ⟨root, hroot, hlisted⟩ := mem_flatMap.mp hpath
  obtain ⟨-, names, hbelow, habove⟩ := FileNode.isBelow_of_mem_sourceFiles hproper hlisted
  obtain ⟨hkind, hnames⟩ := Path.beq_iff.mp hsame
  have habsolute : p.isAbsolute = true := hkind.trans (Uri.ofPath?_eq_some hu).1
  refine ⟨(Uri.ofPath?_eq_of_beq hsame).trans hu, habsolute, Path.place_eq_names habsolute ?_⟩
  rw [hnames, hbelow, mem_append]
  rintro (hmem | hmem)
  · exact hroots root hroot hmem
  · exact habove hmem

/-- Below roots that do not climb, files of one place are one file. -/
lemma eq_of_place_eq (hproper : disk.isProper = true) {roots' : List Path}
    {file file' : Uri × SymbolTable} (h : disk.IsSource roots file)
    (h' : disk.IsSource roots' file') (hroots : ∀ root ∈ roots, Path.above ∉ root.names)
    (hroots' : ∀ root ∈ roots', Path.above ∉ root.names) {p p' : Path}
    (hp : file.1.toPath? = some p) (hp' : file'.1.toPath? = some p') (hplace : p.place = p'.place) :
    file = file' := by
  obtain ⟨hu, habsolute, hnames⟩ := place_eq_names_of_isSource hproper h hroots hp
  obtain ⟨hu', habsolute', hnames'⟩ := place_eq_names_of_isSource hproper h' hroots' hp'
  have hsame : (p == p') = true := by
    rw [Path.beq_iff, habsolute, habsolute', ← hnames, ← hnames', hplace]
    exact ⟨rfl, rfl⟩
  rw [Uri.ofPath?_eq_of_beq hsame, hu', Option.some.injEq] at hu
  exact h.eq_of_text_eq h' (by rw [hu])

/-- **Which files have tables.**  However a session is started, folders change and scans are taken
and put in place, the files with tables are the readable source files under the roots of the scans
that were put in place since the roots last changed, each with the table of its text.  So they are
those under the present roots once there was such a scan and all of them were taken under these
roots, as they are if the roots change only while no scan is under way; and if no root climbs, no
two of the files are of one place. -/
theorem stored_iff_under_placed_roots {disk : FileNode} (hproper : disk.isProper = true)
    {actions : List Action} (hactions : ∀ action ∈ actions, action.isAboutRoots = true) :
    let t := run disk actions
    t.toBusyTimeline = BusyTimeline.run disk actions ∧
    (∀ file, file ∈ t.session.store.files.entries ↔
      ∃ roots ∈ t.placed, disk.IsSource roots file) ∧
    (allAtRest { disk := disk } actions = true → ∀ roots ∈ t.placed, roots = t.session.roots) ∧
    (t.placed ≠ [] → (∀ roots ∈ t.placed, roots = t.session.roots) →
      ∀ file, file ∈ t.session.store.files.entries ↔ disk.IsSource t.session.roots file) ∧
    ((∀ roots ∈ t.placed, ∀ root ∈ roots, Path.above ∉ root.names) →
      ∀ file ∈ t.session.store.files.entries, ∀ file' ∈ t.session.store.files.entries,
        ∀ p p', file.1.toPath? = some p → file'.1.toPath? = some p' → p.place = p'.place →
          file = file') := by
  intro t
  have hstored := (keeps_run hproper hactions).stored
  refine ⟨toBusyTimeline_foldl _ actions, hstored, ?_, ?_, ?_⟩
  · intro hrest
    have hfresh : IsCurrent { disk := disk } := ⟨by simp, by simp⟩
    exact (hfresh.foldl hproper (keeps_fresh disk) hactions hrest).placed
  -- With one scan placed, and all for the present roots, the union is that of one.
  · intro hplaced hroots file
    refine (hstored file).trans ⟨?_, ?_⟩
    · rintro ⟨roots, hmem, hsource⟩
      rwa [hroots roots hmem] at hsource
    · intro hsource
      obtain ⟨roots, hmem⟩ := exists_mem_of_ne_nil _ hplaced
      exact ⟨roots, hmem, by rwa [hroots roots hmem]⟩
  · intro hclimb file hfile file' hfile' p p' hp hp' hplace
    obtain ⟨roots, hmem, hsource⟩ := (hstored file).mp hfile
    obtain ⟨roots', hmem', hsource'⟩ := (hstored file').mp hfile'
    exact eq_of_place_eq hproper hsource hsource' (hclimb roots hmem) (hclimb roots' hmem') hp hp'
      hplace

lemma isSource_child {disk : FileNode} (hproper : disk.isProper = true) {root : Path}
    (hroot : root ∈ roots) {entries : List (FileName × FileNode)}
    (hfind : disk.find root = .ok (.directory entries)) {name : FileName} {text : Text}
    (hmem : (name, .file (some text)) ∈ entries) (hsource : (root.child name).isSourceFile = true)
    {u : Uri} (hu : Uri.ofPath? (root.child name) = some u) :
    disk.IsSource roots (u, SymbolTable.collect text) := by
  have hlisted := FileNode.child_mem_sourceFiles hfind hmem hsource
  exact ⟨root.child name, mem_flatMap.mpr ⟨root, hroot, hlisted⟩, text,
    FileNode.read_child hproper hfind hmem, hu, rfl⟩

/-- The text of a data list without entries. -/
def emptyList : Text :=
  "DEFDAT d PUBLIC\nENDDAT\n".toList

/-- Two directories with a data list each, and a file that is no text. -/
def twoFolders : FileNode :=
  .directory
    [((Path.ofText "a".toList).spelling,
        .directory [((Path.ofText "x.dat".toList).spelling, .file (some emptyList))]),
      ((Path.ofText "b".toList).spelling,
        .directory
          [((Path.ofText "y.dat".toList).spelling, .file (some emptyList)),
            ((Path.ofText "z.dat".toList).spelling, .file none)])]

/-- A folder is put in the place of another while a scan is under way, which is never put in
place. -/
theorem stored_iff_under_placed_roots_refoldered :
    let a : Uri := ⟨"file".toList, some .empty, "/a".toList, []⟩
    let b : Uri := ⟨"file".toList, some .empty, "/b".toList, []⟩
    let y : Uri := ⟨"file".toList, some .empty, "/b/y.dat".toList, []⟩
    let actions : List Action :=
      [.initialized (some a) none [], .scanTaken, .refoldered [b] [a], .scanTaken, .scanApplied 1]
    let t := run twoFolders actions
    twoFolders.isProper = true ∧ (∀ action ∈ actions, action.isAboutRoots = true) ∧
      t.session.roots = [.ofText "/b".toList] ∧
      (∀ file, file ∈ t.session.store.files.entries ↔ twoFolders.IsSource t.session.roots file) ∧
      (y, SymbolTable.collect emptyList) ∈ t.session.store.files.entries := by
  intro a b y actions
  -- The run is kept folded: its parts are evaluated one by one.
  dsimp only
  have hproper : twoFolders.isProper = true := by decide +kernel
  have hactions : ∀ action ∈ actions, action.isAboutRoots = true := by
    simp [actions, Action.isAboutRoots]
  have hroots : (run twoFolders actions).session.roots = [.ofText "/b".toList] :=
    Path.spellings_injective (by decide +kernel)
  have hplaced : (run twoFolders actions).placed = [(run twoFolders actions).session.roots] :=
    map_injective_iff.mpr Path.spellings_injective (by decide +kernel)
  obtain ⟨-, -, -, hpresent, -⟩ := stored_iff_under_placed_roots hproper hactions
  have hstored := hpresent (by rw [hplaced]; exact cons_ne_nil _ _)
    (by rw [hplaced]; exact fun roots => eq_of_mem_singleton)
  have hy : twoFolders.IsSource [.ofText "/b".toList] (y, SymbolTable.collect emptyList) :=
    isSource_child hproper mem_cons_self rfl mem_cons_self (by decide +kernel)
      (by decide +kernel)
  have hmem := (hstored (y, SymbolTable.collect emptyList)).mpr (by rw [hroots]; exact hy)
  exact ⟨hproper, hactions, hroots, hstored, hmem⟩

/-- A scan of a folder that is gone brings its files back; a root that climbs to another has the
files of the other once more; and roots that no scan was put in place for have no files. -/
theorem stored_not_under_roots :
    let a : Uri := ⟨"file".toList, some .empty, "/a".toList, []⟩
    let b : Uri := ⟨"file".toList, some .empty, "/b".toList, []⟩
    let x : Uri := ⟨"file".toList, some .empty, "/a/x.dat".toList, []⟩
    let x' : Uri := ⟨"file".toList, some .empty, "/b/../a/x.dat".toList, []⟩
    let table := SymbolTable.collect emptyList
    let stale : List Action :=
      [.initialized (some a) none [], .scanTaken, .refoldered [b] [a], .scanTaken, .scanApplied 1,
        .scanApplied 0]
    let climbing : List Action :=
      [.initialized none (some "/b/../a".toList) [a], .scanTaken, .scanApplied 0]
    let unscanned : List Action := [.initialized (some a) none []]
    let session := fun (actions : List Action) => (BusyTimeline.run twoFolders actions).session
    let isQuiet := fun (actions : List Action) =>
      (BusyTimeline.run twoFolders actions).scans.isEmpty = true
    (isQuiet stale ∧ (session stale).roots = [.ofText "/b".toList] ∧
        (x, table) ∈ (session stale).store.files.entries) ∧
      (isQuiet climbing ∧ (x, table) ∈ (session climbing).store.files.entries ∧
        (x', table) ∈ (session climbing).store.files.entries ∧ x ≠ x' ∧
        x.toPath?.map Path.place = x'.toPath?.map Path.place) ∧
      (isQuiet unscanned ∧ (session unscanned).roots = [.ofText "/a".toList] ∧
        (session unscanned).store.files.entries.isEmpty = true) := by
  intro a b x x' table stale climbing unscanned
  dsimp only
  have hproper : twoFolders.isProper = true := by decide +kernel
  have hstale : [.ofText "/a".toList] ∈ (run twoFolders stale).placed :=
    (mem_map_of_injective Path.spellings_injective).mp (by decide +kernel)
  have hclimbing : [.ofText "/b/../a".toList, .ofText "/a".toList] ∈
      (run twoFolders climbing).placed :=
    (mem_map_of_injective Path.spellings_injective).mp (by decide +kernel)
  have hx : ∀ {roots : List Path}, .ofText "/a".toList ∈ roots →
      twoFolders.IsSource roots (x, table) := fun hroot =>
    isSource_child hproper hroot rfl mem_cons_self (by decide +kernel) (by decide +kernel)
  have hx' : ∀ {roots : List Path}, .ofText "/b/../a".toList ∈ roots →
      twoFolders.IsSource roots (x', table) := fun hroot =>
    isSource_child hproper hroot rfl mem_cons_self (by decide +kernel) (by decide +kernel)
  refine ⟨⟨by decide +kernel, Path.spellings_injective (by decide +kernel), ?_⟩,
    ⟨by decide +kernel, ?_, ?_, by decide +kernel, by decide +kernel⟩,
    by decide +kernel, Path.spellings_injective (by decide +kernel), by decide +kernel⟩
  · exact mem_stored_of_placed hproper (by simp [stale, Action.isAboutRoots]) hstale
      (hx mem_cons_self)
  · exact mem_stored_of_placed hproper (by simp [climbing, Action.isAboutRoots]) hclimbing
      (hx (mem_cons_of_mem _ mem_cons_self))
  · exact mem_stored_of_placed hproper (by simp [climbing, Action.isAboutRoots]) hclimbing
      (hx' mem_cons_self)

end ScannedTimeline
end KrlWorkbench
