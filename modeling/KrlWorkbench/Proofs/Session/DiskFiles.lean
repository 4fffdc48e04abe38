import KrlWorkbench.Proofs.Session.BufferPrecedence
import KrlWorkbench.Proofs.Uri.FilePaths

/-!
# Source files of a workspace

The files under the roots of a workspace are listed once each, however many roots they are under
and however the roots are spelled.  A scan finds the readable ones that are not open, with their
tables (`Session.mem_scan_iff`), and the table of a file does not depend on the roots it was found
under (`FileNode.IsSource.eq_of_text_eq`).
-/

namespace KrlWorkbench

open List Text

/-! ## Lists in which nothing is there twice -/

namespace Dedup

variable {α : Type} [BEq α] {l : List α} {a : α}

/-- Induction along the removal of what is the same as the first element. -/
@[elab_as_elim]
lemma rec_filter {P : List α → Prop} (hnil : P [])
    (hcons : ∀ a rest, P (rest.filter fun b => !b == a) → P (a :: rest)) (l : List α) : P l := by
  induction hlength : l.length using Nat.strong_induction_on generalizing l with
  | _ n ih =>
    cases l with
    | nil => exact hnil
    | cons a rest =>
      have hshort : (rest.filter fun b => !b == a).length < n := by
        have hle := length_filter_le (fun b => !b == a) rest
        rw [← hlength, length_cons]
        omega
      exact hcons a rest (ih _ hshort _ rfl)

lemma mem_of_mem_eraseDups (h : a ∈ l.eraseDups) : a ∈ l := by
  induction l using rec_filter with
  | hnil => simp at h
  | hcons b rest ih =>
    rw [eraseDups_cons] at h
    rcases mem_cons.mp h with rfl | h
    · exact mem_cons_self
    · exact mem_cons_of_mem _ (mem_of_mem_filter (ih h))

/-- What is gone is the same as something that stays. -/
lemma exists_beq_of_mem [ReflBEq α] (h : a ∈ l) : ∃ b ∈ l.eraseDups, (a == b) = true := by
  induction l using rec_filter with
  | hnil => cases h
  | hcons c rest ih =>
    rw [eraseDups_cons]
    rcases mem_cons.mp h with rfl | h
    · exact ⟨a, mem_cons_self, BEq.rfl⟩
    · by_cases hsame : (a == c) = true
      · exact ⟨c, mem_cons_self, hsame⟩
      · obtain ⟨b, hb, hab⟩ := ih (mem_filter.mpr ⟨h, by simpa using hsame⟩)
        exact ⟨b, mem_cons_of_mem _ hb, hab⟩

lemma pairwise_eraseDups (l : List α) : l.eraseDups.Pairwise fun a b => (b == a) = false := by
  induction l using rec_filter with
  | hnil => exact List.Pairwise.nil
  | hcons a rest ih =>
    rw [eraseDups_cons]
    refine pairwise_cons.mpr ⟨?_, ih⟩
    intro b hb
    simpa using (mem_filter.mp (mem_of_mem_eraseDups hb)).2

end Dedup

instance : ReflBEq Path where
  rfl := Path.beq_iff.mpr ⟨rfl, rfl⟩

/-! ## Files under roots -/

/-- A readable source file under some roots, with its URI and its table. -/
def FileNode.IsSource (disk : FileNode) (roots : List Path) (file : Uri × SymbolTable) : Prop :=
  ∃ path ∈ roots.flatMap disk.sourceFiles, ∃ text, disk.read path = .ok text ∧
    Uri.ofPath? path = some file.1 ∧ SymbolTable.collect text = file.2

namespace FileNode

variable {disk : FileNode} {roots roots' : List Path} {p : Path} {text : Text}

lemma toOption_eq_some_iff {result : Except ReadError Text} :
    result.toOption = some text ↔ result = .ok text := by
  cases result <;> simp [Except.toOption]

lemma exists_find_of_read (h : disk.read p = .ok text) : ∃ node, disk.find p = .ok node := by
  rw [read] at h
  cases hfind : disk.find p with
  | ok node => exact ⟨node, rfl⟩
  | error failure =>
    rw [hfind] at h
    cases h

/-- The table of a file does not depend on the roots it was found under. -/
lemma IsSource.eq_of_text_eq {file file' : Uri × SymbolTable} (h : disk.IsSource roots file)
    (h' : disk.IsSource roots' file') (htext : file.1.text = file'.1.text) : file = file' := by
  obtain ⟨path, -, text, hread, hu, htable⟩ := h
  obtain ⟨path', -, text', hread', hu', htable'⟩ := h'
  have huri : file.1 = file'.1 := Uri.eq_of_text_eq hu hu' htext
  have hsame : (path == path') = true := Uri.beq_of_ofPath? hu (huri ▸ hu')
  obtain ⟨node, hfind⟩ := exists_find_of_read hread
  obtain ⟨node', hfind'⟩ := exists_find_of_read hread'
  rw [read_eq_of_beq hfind hfind' hsame, hread', Except.ok.injEq] at hread
  exact Prod.ext huri (by rw [← htable, ← htable', hread])

end FileNode

namespace Session

variable {disk : FileNode} {roots : List Path} {s : Session} {u : Uri} {p : Path}

lemma mem_diskFiles :
    (u, p) ∈ diskFiles disk roots ↔
      p ∈ (roots.flatMap disk.sourceFiles).eraseDups ∧ Uri.ofPath? p = some u := by
  simp only [diskFiles, mem_filterMap, Option.map_eq_some_iff, Prod.mk.injEq]
  constructor
  · rintro ⟨q, hq, v, hv, rfl, rfl⟩
    exact ⟨hq, hv⟩
  · rintro ⟨hp, hu⟩
    exact ⟨p, hp, u, hu, rfl, rfl⟩

/-- Every listed file is there under a path that is the same. -/
lemma exists_mem_diskFiles (hp : p ∈ roots.flatMap disk.sourceFiles)
    (hu : Uri.ofPath? p = some u) : ∃ q, (u, q) ∈ diskFiles disk roots ∧ (p == q) = true := by
  obtain ⟨q, hq, hsame⟩ := Dedup.exists_beq_of_mem hp
  exact ⟨q, mem_diskFiles.mpr ⟨hq, (Uri.ofPath?_eq_of_beq hsame).symm.trans hu⟩, hsame⟩

/-- A readable source file is listed under a path that can be read. -/
lemma exists_readable_mem_diskFiles (hproper : disk.isProper = true)
    (hp : p ∈ roots.flatMap disk.sourceFiles) {text : Text} (hread : disk.read p = .ok text)
    (hu : Uri.ofPath? p = some u) :
    ∃ q, (u, q) ∈ diskFiles disk roots ∧ disk.read q = .ok text := by
  obtain ⟨q, hmem, hsame⟩ := exists_mem_diskFiles hp hu
  obtain ⟨root, -, hlisted⟩ :=
    mem_flatMap.mp (Dedup.mem_of_mem_eraseDups (mem_diskFiles.mp hmem).1)
  obtain ⟨node, hfind⟩ := FileNode.exists_find_of_read hread
  obtain ⟨content, hfind'⟩ := (FileNode.isBelow_of_mem_sourceFiles hproper hlisted).file
  exact ⟨q, hmem, (FileNode.read_eq_of_beq hfind hfind' hsame).symm.trans hread⟩

lemma mem_scan {table : SymbolTable} :
    (u, table) ∈ s.scan disk ↔ s.isOpen u = false ∧
      ∃ path, (u, path) ∈ diskFiles disk s.roots ∧
        ∃ text, disk.read path = .ok text ∧ SymbolTable.collect text = table := by
  simp only [scan, mem_filterMap, mem_filter, Bool.not_eq_true', Prod.exists,
    Option.map_eq_some_iff, Prod.mk.injEq]
  constructor
  · rintro ⟨v, path, ⟨hmem, hclosed⟩, text, htext, rfl, rfl⟩
    exact ⟨hclosed, path, hmem, text, FileNode.toOption_eq_some_iff.mp htext, rfl⟩
  · rintro ⟨hclosed, path, hmem, text, htext, rfl⟩
    exact ⟨u, path, ⟨hmem, hclosed⟩, text, FileNode.toOption_eq_some_iff.mpr htext, rfl, rfl⟩

/-- **What a scan finds**: the readable source files under the roots that are not open. -/
lemma mem_scan_iff (hproper : disk.isProper = true) {file : Uri × SymbolTable} :
    file ∈ s.scan disk ↔ s.isOpen file.1 = false ∧ disk.IsSource s.roots file := by
  obtain ⟨u, table⟩ := file
  rw [mem_scan]
  refine and_congr_right fun _ => ⟨?_, ?_⟩
  · rintro ⟨path, hmem, text, hread, rfl⟩
    obtain ⟨hpath, hu⟩ := mem_diskFiles.mp hmem
    exact ⟨path, Dedup.mem_of_mem_eraseDups hpath, text, hread, hu, rfl⟩
  · rintro ⟨path, hpath, text, hread, hu, rfl⟩
    obtain ⟨path', hmem, hread'⟩ := exists_readable_mem_diskFiles hproper hpath hread hu
    exact ⟨path', hmem, text, hread', rfl⟩

end Session
end KrlWorkbench
