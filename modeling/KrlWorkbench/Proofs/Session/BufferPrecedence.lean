import KrlWorkbench.Proofs.Symbol.MergedView
import KrlWorkbench.Proofs.Uri.Rereading
import KrlWorkbench.Session.Timeline

/-!
# Open documents go before the disk

A scan of the workspace reads the disk at one time and is put in place at another; documents are
opened, changed and closed in between, and roots come and go.  Here it is shown that in whatever
order this happens, the table of an open document is the table of its text and the published view
is that of the tables, as long as the URIs of the documents are read back from their own text.

That condition cannot be dropped: when the roots change, the open documents are filed anew under
what the texts of their URIs are read as, and a document of another spelling is lost.  Local files
always satisfy it.
-/

namespace KrlWorkbench

open List SymbolTable Text

variable {roots : List Path} {table : SymbolTable} {u v : Uri}

/-- The text of a URI is read as a URI of the same text. -/
def Uri.Rereads (u : Uri) : Prop :=
  u.reread?.map Uri.text = some u.text

lemma Uri.rereads_congr (h : u.text = v.text) : u.Rereads ↔ v.Rereads := by
  rw [Rereads, Rereads, reread?, reread?, h]

lemma Uri.rereads_of_ofText? {text : Text} (hread : ofText? text = some u)
    (hscheme : u.scheme = "file".toList) (hlocal : u.authority = some .empty) : u.Rereads := by
  rw [Rereads, (isFile_of_ofText? hread hscheme).reread?_of_local hlocal, Option.map_some]

/-! ## Tables of a store -/

namespace SymbolStore

variable {store : SymbolStore} {files : List (Uri × SymbolTable)} {v : Uri}

lemma table?_replace (store : SymbolStore) (u : Uri) (table : SymbolTable) (v : Uri) :
    (store.replace u table).table? v = if v.text = u.text then some table else store.table? v :=
  UriMap.get?_insert _ _ _ _

lemma table?_erase (store : SymbolStore) (u v : Uri) :
    (store.erase u).table? v = if v.text = u.text then none else store.table? v := by
  rw [table?, UriMap.get?, find?_files_erase]
  split <;> rfl

/-- Stores tables one after another. -/
def replaceAll (store : SymbolStore) (files : List (Uri × SymbolTable)) : SymbolStore :=
  files.foldl (fun store f => store.replace f.1 f.2) store

lemma IsPublished.replaceAll (h : store.IsPublished) (files : List (Uri × SymbolTable)) :
    (store.replaceAll files).IsPublished := by
  induction files generalizing store with
  | nil => exact h
  | cons f files ih => exact ih (isPublished_replace store f.1 f.2)

/-- The last table of a spelling counts, or else what was there before. -/
lemma table?_replaceAll (store : SymbolStore) (files : List (Uri × SymbolTable)) (v : Uri) :
    (store.replaceAll files).table? v =
      ((files.reverse.find? fun f => f.1.text == v.text).map (·.2)).or (store.table? v) := by
  induction files generalizing store with
  | nil => simp [replaceAll]
  | cons f files ih =>
    refine (ih (store.replace f.1 f.2)).trans ?_
    rw [table?_replace, reverse_cons, find?_append]
    cases hfound : files.reverse.find? fun f => f.1.text == v.text with
    | some found => rfl
    | none =>
      by_cases h : v.text = f.1.text
      · simp [h]
      · simp [h, Ne.symm h]

lemma table?_replaceAll_of_ne (h : ∀ f ∈ files, f.1.text ≠ v.text) :
    (store.replaceAll files).table? v = store.table? v := by
  have hnone : (files.reverse.find? fun f => f.1.text == v.text) = none := by
    rw [List.find?_eq_none]
    intro f hf
    simpa using h f (mem_reverse.mp hf)
  rw [table?_replaceAll, hnone]
  rfl

/-- Tables of one spelling that are all the same end up there. -/
lemma table?_replaceAll_of_mem (hmem : (u, table) ∈ files) (htext : u.text = v.text)
    (hsame : ∀ f ∈ files, f.1.text = v.text → f.2 = table) :
    (store.replaceAll files).table? v = some table := by
  obtain ⟨f, hfound⟩ : ∃ f, (files.reverse.find? fun f => f.1.text == v.text) = some f := by
    rw [← Option.isSome_iff_exists, find?_isSome]
    exact ⟨(u, table), mem_reverse.mpr hmem, by simp [htext]⟩
  have hf : f.2 = table := by
    refine hsame f (mem_reverse.mp (mem_of_find?_eq_some hfound)) ?_
    simpa using find?_some hfound
  rw [table?_replaceAll, hfound, Option.map_some, hf, Option.some_or]

end SymbolStore

/-! ## What a session keeps -/

namespace Session

open SymbolStore

/-- The table of every open document is that of its text. -/
def BuffersWin (s : Session) : Prop :=
  ∀ u text, s.text? u = some text → s.store.table? u = some (collect text)

/-- Open documents have their tables, and keep them when they are filed anew. -/
structure Coherent (s : Session) : Prop where
  buffersWin : s.BuffersWin
  rereads : ∀ u text, s.text? u = some text → u.Rereads

variable {s : Session}

lemma text?_analyze (s : Session) (u : Uri) (text : Text) (v : Uri) :
    (s.analyze u text).text? v = if v.text = u.text then some text else s.text? v :=
  UriMap.get?_insert _ _ _ _

lemma text?_forget (s : Session) (disk : FileNode) (u v : Uri) :
    (s.forget disk u).text? v = if v.text = u.text then none else s.text? v :=
  UriMap.get?_erase _ _ _

lemma text?_congr (h : u.text = v.text) : s.text? u = s.text? v := by
  rw [text?, text?, UriMap.get?, UriMap.get?, h]

lemma isOpen_congr (h : u.text = v.text) : s.isOpen u = s.isOpen v := by
  rw [isOpen, isOpen, text?_congr h]

/-- Only the documents and the tables count. -/
lemma Coherent.congr {s' : Session} (h : s.Coherent) (hdocuments : s'.documents = s.documents)
    (hstore : s'.store = s.store) : s'.Coherent := by
  cases s
  cases s'
  cases hdocuments
  cases hstore
  exact ⟨h.buffersWin, h.rereads⟩

lemma Coherent.analyze (h : s.Coherent) (hu : u.Rereads) (text : Text) :
    (s.analyze u text).Coherent := by
  constructor
  · intro v t ht
    rw [text?_analyze] at ht
    refine (table?_replace _ _ _ _).trans ?_
    split at ht
    case isTrue hsame =>
      cases ht
      rw [if_pos hsame]
    case isFalse hother =>
      rw [if_neg hother]
      exact h.buffersWin v t ht
  · intro v t ht
    rw [text?_analyze] at ht
    split at ht
    case isTrue hsame => exact (Uri.rereads_congr hsame).mpr hu
    case isFalse => exact h.rereads v t ht

/-- A document that is closed takes no other's table with it. -/
lemma table?_forget_of_ne (s : Session) (disk : FileNode) (h : v.text ≠ u.text) :
    (s.forget disk u).store.table? v = s.store.table? v := by
  rw [forget]
  cases onDisk? disk u with
  | some text => exact (table?_replace _ _ _ _).trans (if_neg h)
  | none => exact (table?_erase _ _ _).trans (if_neg h)

lemma Coherent.forget (h : s.Coherent) (disk : FileNode) (u : Uri) :
    (s.forget disk u).Coherent := by
  have hopen : ∀ v t, (s.forget disk u).text? v = some t →
      v.text ≠ u.text ∧ s.text? v = some t := by
    intro v t ht
    rw [text?_forget] at ht
    split_ifs at ht with hother
    exact ⟨hother, ht⟩
  constructor
  · intro v t ht
    obtain ⟨hother, ht⟩ := hopen v t ht
    rw [table?_forget_of_ne s disk hother]
    exact h.buffersWin v t ht
  · intro v t ht
    exact h.rereads v t (hopen v t ht).2

/-- A scan passes over the documents that are open when it is put in place. -/
lemma applyScan_eq (s : Session) (found : List (Uri × SymbolTable)) :
    s.applyScan found =
      { s with store := s.store.replaceAll (found.filter fun f => !s.isOpen f.1) } := by
  rw [applyScan, replaceAll, foldl_filter]
  congr 2
  funext store f
  change (if s.isOpen f.1 then store else store.replace f.1 f.2) = _
  cases s.isOpen f.1 <;> rfl

lemma table?_applyScan_of_isOpen (s : Session) (found : List (Uri × SymbolTable))
    (hopen : s.isOpen u = true) : (s.applyScan found).store.table? u = s.store.table? u := by
  rw [applyScan_eq]
  refine table?_replaceAll_of_ne ?_
  intro f hf hsame
  rw [← isOpen_congr hsame] at hopen
  simp [hopen] at hf

lemma buffersWin_applyScan (s : Session) (found : List (Uri × SymbolTable)) :
    (s.applyScan found).BuffersWin ↔ s.BuffersWin := by
  refine forall_congr' fun u => forall_congr' fun text => ?_
  change (s.text? u = some text → _) ↔ (s.text? u = some text → _)
  refine forall_congr' fun htext => ?_
  rw [table?_applyScan_of_isOpen s found (by rw [isOpen, htext, Option.isSome_some])]

lemma Coherent.applyScan (h : s.Coherent) (found : List (Uri × SymbolTable)) :
    (s.applyScan found).Coherent :=
  ⟨(buffersWin_applyScan s found).mpr h.buffersWin, h.rereads⟩

/-- The tables of the documents under what their URIs are read as. -/
def rereadTables (s : Session) : List (Uri × SymbolTable) :=
  s.reread.map fun d => (d.1, collect d.2)

/-- Roots that are the same name by name change nothing. -/
lemma setRoots_of_beq (h : (roots == s.roots) = true) : s.setRoots roots = s := by
  rw [setRoots, if_pos h]

lemma setRoots_of_not_beq (h : (roots == s.roots) = false) :
    s.setRoots roots =
      { s with roots := roots, store := s.store.clear.replaceAll s.rereadTables } := by
  rw [setRoots, if_neg (by simp [h]), replaceAll, rereadTables, foldl_map]

lemma documents_setRoots (s : Session) (roots : List Path) :
    (s.setRoots roots).documents = s.documents ∧ (s.setRoots roots).edits = s.edits := by
  rw [Session.setRoots]
  split <;> exact ⟨rfl, rfl⟩

lemma mem_rereadTables :
    (v, table) ∈ s.rereadTables ↔
      ∃ u text, (u, text) ∈ s.documents.entries ∧ u.reread? = some v ∧ collect text = table := by
  simp only [rereadTables, reread, mem_map, mem_filterMap, Prod.exists,
    Option.map_eq_some_iff, Prod.mk.injEq]
  constructor
  · rintro ⟨v, text, ⟨u, text, hmem, v, hv, rfl, rfl⟩, rfl, rfl⟩
    exact ⟨u, text, hmem, hv, rfl⟩
  · rintro ⟨u, text, hmem, hv, rfl⟩
    exact ⟨v, text, ⟨u, text, hmem, v, hv, rfl, rfl⟩, rfl, rfl⟩

/-- A document that is read back is filed under a URI of its own spelling. -/
lemma Coherent.exists_mem_rereadTables (h : s.Coherent) {text : Text}
    (htext : s.text? v = some text) :
    ∃ w, (w, collect text) ∈ s.rereadTables ∧ w.text = v.text := by
  obtain ⟨u, hmem, huv⟩ := UriMap.get?_eq_some_iff.mp htext
  have hu : u.Rereads := (Uri.rereads_congr huv).mpr (h.rereads v text htext)
  obtain ⟨w, hread, hw⟩ := Option.map_eq_some_iff.mp hu
  exact ⟨w, mem_rereadTables.mpr ⟨u, text, hmem, hread, rfl⟩, hw.trans huv⟩

/-- What is filed anew belongs to an open document of that spelling. -/
lemma Coherent.exists_text?_of_mem (h : s.Coherent) {w : Uri} (hmem : (w, table) ∈ s.rereadTables) :
    ∃ text, s.text? w = some text ∧ collect text = table := by
  obtain ⟨u, text, hentry, hread, hcollect⟩ := mem_rereadTables.mp hmem
  have htext : s.text? u = some text := UriMap.get?_eq_some_iff.mpr ⟨u, hentry, rfl⟩
  have hu : u.Rereads := h.rereads u text htext
  rw [Uri.Rereads, hread, Option.map_some, Option.some.injEq] at hu
  exact ⟨text, (text?_congr hu).trans htext, hcollect⟩

/-- The documents are filed anew where they were if their URIs are read back. -/
lemma Coherent.setRoots (h : s.Coherent) (roots : List Path) : (s.setRoots roots).Coherent := by
  by_cases hroots : (roots == s.roots) = true
  · rwa [setRoots_of_beq hroots]
  rw [setRoots_of_not_beq (by simpa using hroots)]
  refine ⟨?_, h.rereads⟩
  intro v text (htext : s.text? v = some text)
  obtain ⟨w, hmem, hw⟩ := h.exists_mem_rereadTables htext
  refine table?_replaceAll_of_mem hmem hw ?_
  rintro ⟨w', table⟩ hmem' (hw' : w'.text = v.text)
  obtain ⟨text', htext', rfl⟩ := h.exists_text?_of_mem hmem'
  rw [text?_congr hw', htext] at htext'
  cases htext'
  rfl

/-- A table that is there after other roots is that of a document under what its URI is read as. -/
lemma exists_reread?_of_table?_setRoots (hroots : (roots == s.roots) = false)
    (h : (s.setRoots roots).store.table? v = some table) :
    ∃ u text w, (u, text) ∈ s.documents.entries ∧ u.reread? = some w ∧ w.text = v.text := by
  rw [setRoots_of_not_beq hroots] at h
  have hlast := table?_replaceAll s.store.clear s.rereadTables v
  have hcleared : s.store.clear.table? v = none := rfl
  rw [hcleared, Option.or_none] at hlast
  obtain ⟨⟨w, table⟩, hfound, -⟩ := Option.map_eq_some_iff.mp (hlast.symm.trans h)
  obtain ⟨u, text, hmem, hread, -⟩ :=
    mem_rereadTables.mp (mem_reverse.mp (mem_of_find?_eq_some hfound))
  exact ⟨u, text, w, hmem, hread, by simpa using find?_some hfound⟩

/-! ## What every change of a session keeps -/

/-- A property of sessions that stays when documents, roots and tables change, as long as only
documents of a class are given a text. -/
structure Kept (P : Session → Prop) (uris : Uri → Prop) : Prop where
  /-- It depends on documents and tables only. -/
  congr : ∀ {s s' : Session}, P s → s'.documents = s.documents → s'.store = s.store → P s'
  analyze : ∀ {s : Session} {u : Uri}, P s → uris u → ∀ text, P (s.analyze u text)
  forget : ∀ {s : Session}, P s → ∀ disk u, P (s.forget disk u)
  setRoots : ∀ {s : Session}, P s → ∀ roots, P (s.setRoots roots)
  applyScan : ∀ {s : Session}, P s → ∀ found, P (s.applyScan found)

lemma kept_coherent : Kept Coherent Uri.Rereads where
  congr := Coherent.congr
  analyze h hu := h.analyze hu
  forget := Coherent.forget
  setRoots := Coherent.setRoots
  applyScan := Coherent.applyScan

lemma kept_isPublished : Kept (fun s => s.store.IsPublished) fun _ => True where
  congr h _ hstore := by rwa [hstore]
  analyze _ _ _ := isPublished_replace _ _ _
  forget := by
    intro s h disk u
    rw [Session.forget]
    cases onDisk? disk u with
    | some text => exact isPublished_replace _ _ _
    | none => exact h.erase u
  setRoots := by
    intro s h roots
    by_cases hroots : (roots == s.roots) = true
    · rwa [setRoots_of_beq hroots]
    · rw [setRoots_of_not_beq (by simpa using hroots)]
      exact isPublished_fresh.replaceAll _
  applyScan := by
    intro s h found
    rw [applyScan_eq]
    exact h.replaceAll _

end Session

/-- The document of which an event gives a text. -/
def Event.document? : Event → Option Uri
  | .opened u _ | .changed u _ | .saved u _ => some u
  | .closed _ | .configured _ | .foldersChanged _ _ => none

lemma Session.Kept.handle {P : Session → Prop} {uris : Uri → Prop} (hkept : Kept P uris)
    {t : Timeline} (h : P t.session) {event : Event} (hevent : ∀ u ∈ event.document?, uris u) :
    P (t.handle event).1.session := by
  cases event with
  | opened u text => exact hkept.congr (hkept.analyze h (hevent u rfl) text) rfl rfl
  | changed u texts =>
    rw [Timeline.handle]
    cases texts.getLast? with
    | some text => exact hkept.congr (hkept.analyze h (hevent u rfl) text) rfl rfl
    | none => exact h
  | saved u text =>
    simp only [Timeline.handle]
    cases text.or (t.session.text? u) with
    | some text => exact hkept.analyze h (hevent u rfl) text
    | none => exact h
  | closed u => exact hkept.forget h t.disk u
  | configured settings =>
    simp only [Timeline.handle]
    unfold Timeline.configure
    split
    · exact h
    · exact h
    · exact hkept.congr h rfl rfl
  | foldersChanged added removed => exact hkept.applyScan (hkept.setRoots h _) _

/-! ## Sessions with scans under way -/

/-- A timeline with the scans that have been taken and are not yet in place. -/
structure BusyTimeline extends Timeline where
  scans : List (List (Uri × SymbolTable)) := []

/-- What happens while scans are under way. -/
inductive Action where
  /-- The editor names the roots it starts with. -/
  | initialized (rootUri : Option Uri) (rootPath : Option Text) (folders : List Uri)
  | handled (event : Event)
  /-- Folders change, with a scan to come. -/
  | refoldered (added removed : List Uri)
  | diskChanged (disk : FileNode)
  /-- A scan reads the disk. -/
  | scanTaken
  /-- One of the scans is put in place. -/
  | scanApplied (index : Nat)

/-- The document of which an action gives a text. -/
def Action.document? : Action → Option Uri
  | .handled event => event.document?
  | _ => none

namespace BusyTimeline

open Session

/-- What an action does. -/
def step (t : BusyTimeline) : Action → BusyTimeline
  | .initialized rootUri rootPath folders =>
    { t with session := t.session.setRoots (initialRoots rootUri rootPath folders) }
  | .handled event => { t with toTimeline := (t.toTimeline.handle event).1 }
  | .refoldered added removed => { t with session := t.session.changeFolders added removed }
  | .diskChanged disk => { t with disk := disk }
  | .scanTaken => { t with scans := t.scans ++ [t.session.scan t.disk] }
  | .scanApplied index =>
    match t.scans[index]? with
    | some found =>
      { t with session := t.session.applyScan found, scans := t.scans.eraseIdx index }
    | none => t

/-- A fresh timeline after some actions. -/
def run (disk : FileNode) (actions : List Action) : BusyTimeline :=
  actions.foldl step { disk := disk }

variable {P : Session → Prop} {uris : Uri → Prop} {t : BusyTimeline}

/-- **What one action keeps.** -/
lemma kept_step (hkept : Kept P uris) (h : P t.session) {action : Action}
    (haction : ∀ u ∈ action.document?, uris u) : P (t.step action).session := by
  cases action with
  | initialized rootUri rootPath folders => exact hkept.setRoots h _
  | handled event => exact hkept.handle h haction
  | refoldered added removed => exact hkept.setRoots h _
  | diskChanged disk => exact h
  | scanTaken => exact h
  | scanApplied index =>
    rw [step]
    cases t.scans[index]? with
    | some found => exact hkept.applyScan h found
    | none => exact h

/-- **What a run keeps.** -/
lemma kept_foldl (hkept : Kept P uris) (h : P t.session) {actions : List Action}
    (hactions : ∀ action ∈ actions, ∀ u ∈ action.document?, uris u) :
    P (actions.foldl step t).session := by
  induction actions generalizing t with
  | nil => exact h
  | cons action actions ih =>
    have haction : ∀ u ∈ action.document?, uris u := hactions action (by simp)
    exact ih (kept_step hkept h haction) (forall_mem_cons.mp hactions).2

lemma coherent_run (disk : FileNode) {actions : List Action}
    (h : ∀ action ∈ actions, ∀ u ∈ action.document?, u.Rereads) :
    (run disk actions).session.Coherent := by
  have hfresh : Coherent {} := by
    constructor
    all_goals
      intro u text htext
      cases htext
  exact kept_foldl kept_coherent hfresh h

lemma isPublished_run (disk : FileNode) (actions : List Action) :
    (run disk actions).session.store.IsPublished :=
  kept_foldl kept_isPublished SymbolStore.isPublished_fresh fun _ _ _ _ => trivial

/-- A document that keeps its table when a first folder is added is read back from its URI. -/
lemma rereads_of_buffersWin (disk : FileNode) {folder : Uri} {root : Path}
    (hfolder : folder.toPath? = some root)
    (h : (run disk [.handled (.opened u []), .refoldered [folder] []]).session.BuffersWin) :
    u.Rereads := by
  let s : Session := (run disk [.handled (.opened u [])]).session
  have hrun : (run disk [.handled (.opened u []), .refoldered [folder] []]).session =
      s.setRoots [root] := by
    change s.changeFolders [folder] [] = _
    rw [changeFolders, filterMap_cons_some hfolder]
    rfl
  have hentries : s.documents.entries = [(u, [])] := rfl
  rw [hrun] at h
  have hopen : (s.setRoots [root]).text? u = some [] := by
    rw [setRoots_of_not_beq rfl]
    exact UriMap.get?_eq_some_iff.mpr ⟨u, by simp [hentries], rfl⟩
  obtain ⟨v, text, w, hmem, hread, hw⟩ := exists_reread?_of_table?_setRoots rfl (h u [] hopen)
  obtain ⟨rfl, rfl⟩ : v = u ∧ text = [] := by simpa [hentries] using hmem
  rw [Uri.Rereads, hread, Option.map_some, hw]

/-- The folder of a workspace. -/
def workspaceFolder : Uri :=
  ⟨"file".toList, some .empty, "/ws".toList, []⟩

/-- **Open documents go before the disk**, exactly if their URIs are read back from their own text.
In whatever order a session is started, documents are opened, changed, saved and closed, folders
come and go and scans are taken and put in place, the view is that of the tables; and the table of
every open document is that of its text, if only documents of URIs that are read back are given a
text.  A class with any other URI has a session in which a document is lost.  All local files are
read back. -/
theorem buffersWin_run_iff_rereads (uris : Uri → Prop) :
    (∀ disk actions, (run disk actions).session.store.IsPublished) ∧
    ((∀ disk actions, (∀ action ∈ actions, ∀ u ∈ action.document?, uris u) →
        (run disk actions).session.BuffersWin) ↔
      ∀ u, uris u → u.Rereads) ∧
    (∀ text u, Uri.ofText? text = some u → u.scheme = "file".toList →
      u.authority = some .empty → u.Rereads) := by
  refine ⟨isPublished_run, ⟨?_, ?_⟩, ?_⟩
  · intro hwin u hu
    obtain ⟨root, hroot⟩ : ∃ root, workspaceFolder.toPath? = some root :=
      Option.isSome_iff_exists.mp (by decide)
    refine rereads_of_buffersWin .empty hroot (hwin .empty _ ?_)
    simpa [Action.document?, Event.document?] using hu
  · intro hrereads disk actions hactions
    refine (coherent_run disk fun action haction u hu => ?_).buffersWin
    exact hrereads u (hactions action haction u hu)
  · intro text u hread hscheme hlocal
    exact Uri.rereads_of_ofText? hread hscheme hlocal

/-- A scan finds an old text of a file, which is opened before the scan is put in place and after
which a folder is added. -/
theorem buffersWin_run_staleScan :
    let u : Uri := ⟨"file".toList, some .empty, "/ws/a.src".toList, []⟩
    let text : Text := "DEF fresh()\nEND".toList
    let file : FileNode := .file (some "DEF stale()\nEND".toList)
    let disk : FileNode := .directory
      [((Path.ofText "ws".toList).spelling,
        .directory [((Path.ofText "a.src".toList).spelling, file)])]
    let actions : List Action :=
      [.initialized none (some "/ws".toList) [], .scanTaken, .handled (.opened u text),
        .scanApplied 0, .refoldered [⟨"file".toList, some .empty, "/lib".toList, []⟩] []]
    (∀ action ∈ actions, ∀ v ∈ action.document?, v = u) ∧
      (run disk actions).session.text? u = some text ∧
      (run disk actions).session.store.table? u = some (SymbolTable.collect text) := by
  intro u text file disk actions
  obtain ⟨-, hiff, hlocal⟩ := buffersWin_run_iff_rereads (· = u)
  have hu : u.Rereads := hlocal "file:///ws/a.src".toList u (by decide +kernel) rfl rfl
  have honly : ∀ action ∈ actions, ∀ v ∈ action.document?, v = u := by
    simp [actions, Action.document?, Event.document?]
  have hopen : (run disk actions).session.text? u = some text := by decide +kernel
  refine ⟨honly, hopen, ?_⟩
  exact hiff.mpr (by rintro v rfl; exact hu) disk actions honly u text hopen

/-- Behind a host the path of a file may start with a drive, and its URI is read as one of this
host: the document is open and has no table. -/
theorem buffers_lost_behind_host :
    let u : Uri := ⟨"file".toList, some (.ofHost (some (.long ⟨[0, 0, 0, 0, 0, 0, 0, 1]⟩))),
      "/C:/a.src".toList, []⟩
    let text : Text := "GLOBAL DEF helper()\nEND\n".toList
    let t := run .empty [.handled (.opened u text), .refoldered [workspaceFolder] []]
    Uri.ofText? "file://[::1]//C:/a.src".toList = some u ∧
      t.session.text? u = some text ∧ t.session.store.table? u = none := by
  decide +kernel

end BusyTimeline
end KrlWorkbench
