import KrlWorkbench.Proofs.Session.BufferPrecedence

/-!
# Published diagnostics catch up with the document

An edit asks for a check of the document, a check begins when its time has come, and the editor is
told of it when it is done.  Checks that are under way together may be done in any order, and a
document may be closed while one is under way.  A check reads the document when it begins.

Here checks are numbered as they begin.  Once none waits and none is under way, the editor has been
told what holds of the document now, if the check it was told of last is the one that began last,
and if no text of the document was saved while it was closed.  Neither can be left out.  The
invariant behind it is `Tracks`: what the newest check tells is right, or a check that counts still
waits.
-/

namespace KrlWorkbench

open List Text

/-! ## Checks under way -/

/-- What happens to a document. -/
inductive DocumentEvent where
  | opened (text : Text)
  | changed (texts : List Text)
  | saved (text : Option Text)
  | closed

namespace DocumentEvent

/-- The event of a session. -/
def about (u : Uri) : DocumentEvent → Event
  | opened text => .opened u text
  | changed texts => .changed u texts
  | saved text => .saved u text
  | closed => .closed u

/-- What the editor has open after an event.  To save a document does not open it. -/
def buffer (before : Option Text) : DocumentEvent → Option Text
  | opened text => some text
  | changed texts => texts.getLast?.or before
  | saved text => before.map text.getD
  | closed => none

end DocumentEvent

/-- A check that has begun, and what it will tell. -/
structure Pass where
  number : Nat
  notice : Notice

/-- A timeline with the checks that are under way. -/
structure CheckedTimeline extends Timeline where
  passes : List Pass := []
  /-- How many checks have begun. To tell that a document is closed counts as one. -/
  begun : Nat := 0
  /-- The number of the check that the editor was told of last. -/
  shown : Nat := 0

/-- What happens while checks are under way. -/
inductive CheckAction where
  | handled (event : DocumentEvent)
  /-- The time of a check that waits has come. -/
  | expired (index : Nat)
  /-- A check is done. -/
  | completed (index : Nat)

namespace CheckAction

/-- What the editor has open after an action. -/
def buffer (before : Option Text) : CheckAction → Option Text
  | handled event => event.buffer before
  | _ => before

/-- Whether an action saves a text of a document only if it is open. -/
def savesOpen (before : Option Text) : CheckAction → Bool
  | handled (.saved (some _)) => before.isSome
  | _ => true

/-- Whether some actions save texts of an open document only. -/
def allSaveOpen (before : Option Text) : List CheckAction → Bool
  | [] => true
  | action :: actions => action.savesOpen before && allSaveOpen (action.buffer before) actions

end CheckAction

namespace CheckedTimeline

/-- Begins a check that will tell something. -/
def launch (t : CheckedTimeline) (notice : Notice) : CheckedTimeline :=
  { t with passes := t.passes ++ [⟨t.begun + 1, notice⟩], begun := t.begun + 1 }

/-- Tells something at once. -/
def announce (t : CheckedTimeline) (notice : Notice) : CheckedTimeline :=
  { t with toTimeline := t.record [notice], begun := t.begun + 1, shown := t.begun + 1 }

/-- What an action does. -/
def step (u : Uri) (t : CheckedTimeline) : CheckAction → CheckedTimeline
  | .handled .closed =>
    let (later, notices) := t.handle (.closed u)
    notices.foldl announce { t with toTimeline := later }
  | .handled event =>
    let (later, notices) := t.handle (event.about u)
    notices.foldl launch { t with toTimeline := later }
  | .expired index =>
    match t.waiting[index]? with
    | some v =>
      (if v.isCurrent t.session then Timeline.publish t.session v.uri else []).foldl launch
        { t with waiting := t.waiting.eraseIdx index }
    | none => t
  | .completed index =>
    match t.passes[index]? with
    | some p =>
      { t with
        toTimeline := t.record [p.notice]
        passes := t.passes.eraseIdx index
        shown := p.number }
    | none => t

/-- A session that has started. -/
def start (disk : FileNode) (roots : List Path) (settings : Option Json) : CheckedTimeline :=
  { toTimeline := (Timeline.start disk roots settings).1 }

/-- A session after what happened to one document. -/
def run (disk : FileNode) (roots : List Path) (settings : Option Json) (u : Uri)
    (actions : List CheckAction) : CheckedTimeline :=
  actions.foldl (step u) (start disk roots settings)

/-- Whether an action leaves checks in the order in which they began: it does not end one before
another nor close a document before its checks are done. -/
def isOrderly (t : CheckedTimeline) : CheckAction → Bool
  | .handled .closed => t.passes.isEmpty
  | .completed index => index == 0
  | _ => true

/-- Whether some actions leave checks in the order in which they began. -/
def allOrderly (u : Uri) (t : CheckedTimeline) : List CheckAction → Bool
  | [] => true
  | action :: actions => t.isOrderly action && allOrderly u (t.step u action) actions

variable {action : CheckAction} {event : DocumentEvent} {actions : List CheckAction} {s : Session}
  {before : Option Text} {t : CheckedTimeline} {u : Uri}

/-! ## Telling the editor -/

lemma lastPublished_record (t : Timeline) (u : Uri) (found : List Diagnostic) :
    (t.record [.diagnostics u found]).lastPublished u.text = found := by
  rw [Timeline.lastPublished, Timeline.record, foldl_cons, foldl_nil,
    UriMap.find?_insert, if_pos rfl]
  rfl

lemma publish_of_open (h : (s.text? u).isSome = true) :
    Timeline.publish s u = [.diagnostics u ((s.diagnostics? u).getD [])] := by
  obtain ⟨text, htext⟩ := Option.isSome_iff_exists.mp h
  rw [Timeline.publish, Session.diagnostics?, htext]
  rfl

lemma publish_of_closed (h : s.text? u = none) : Timeline.publish s u = [] := by
  rw [Timeline.publish, Session.diagnostics?, h]
  rfl

/-! ## What every action keeps -/

/-- Findings that are those of the document as it is, or else will be told again since a check
waits. -/
def IsFresh (t : CheckedTimeline) (u : Uri) (found : List Diagnostic) : Prop :=
  found = (t.session.diagnostics? u).getD [] ∨ ∃ v ∈ t.waiting, v.isCurrent t.session = true

/-- All is about one document, and numbers are given in order. -/
structure Tidy (u : Uri) (t : CheckedTimeline) : Prop where
  about : ∀ v ∈ t.waiting, v.uri = u
  /-- Changes are counted of an open document only. -/
  counted : (t.session.edits? u).isSome = true → (t.session.text? u).isSome = true
  told : ∀ p ∈ t.passes, ∃ found, p.notice = .diagnostics u found
  numbered : ∀ p ∈ t.passes, p.number ≤ t.begun
  shown_le : t.shown ≤ t.begun

/-- What the check that began last tells is right or will be told again. -/
structure Tracks (u : Uri) (t : CheckedTimeline) : Prop extends Tidy u t where
  newest : ∀ p ∈ t.passes, p.number = t.begun →
    ∀ found, p.notice = .diagnostics u found → t.IsFresh u found
  shown : t.shown = t.begun → t.IsFresh u (t.lastPublished u.text)

/-- While a check waits nothing has to be right. -/
lemma Tidy.tracks_of_waiting (h : Tidy u t)
    (hwaiting : ∃ v ∈ t.waiting, v.isCurrent t.session = true) : Tracks u t where
  toTidy := h
  newest _ _ _ _ _ := .inr hwaiting
  shown _ := .inr hwaiting

/-- A check that begins is the newest, and right. -/
lemma Tidy.tracks_launch (h : Tidy u t) :
    Tracks u (t.launch (.diagnostics u ((t.session.diagnostics? u).getD []))) where
  __ := h
  told := by
    intro p hp
    obtain hp | rfl := mem_append.mp hp |>.imp_right mem_singleton.mp
    · exact h.told p hp
    · exact ⟨_, rfl⟩
  numbered := by
    intro p hp
    obtain hp | rfl := mem_append.mp hp |>.imp_right mem_singleton.mp
    · exact Nat.le_succ_of_le (h.numbered p hp)
    · exact Nat.le_refl _
  shown_le := Nat.le_succ_of_le h.shown_le
  newest := by
    intro p hp hnumber found hfound
    obtain hp | rfl := mem_append.mp hp |>.imp_right mem_singleton.mp
    · exact absurd hnumber (Nat.ne_of_lt (Nat.lt_succ_of_le (h.numbered p hp)))
    · cases hfound
      exact .inl rfl
  shown hshown := absurd hshown (Nat.ne_of_lt (Nat.lt_succ_of_le h.shown_le))

/-- What is told of a document that is closed is right, and no check under way is the newest. -/
lemma Tidy.tracks_announce (h : Tidy u t) (hclosed : t.session.text? u = none) :
    Tracks u (t.announce (.diagnostics u [])) where
  __ := h
  numbered p hp := Nat.le_succ_of_le (h.numbered p hp)
  shown_le := Nat.le_refl _
  newest p hp hnumber := absurd hnumber (Nat.ne_of_lt (Nat.lt_succ_of_le (h.numbered p hp)))
  shown _ := by
    left
    change (t.record [.diagnostics u []]).lastPublished u.text = (t.session.diagnostics? u).getD []
    rw [lastPublished_record, Session.diagnostics?, hclosed]
    rfl

/-! ### Edits -/

lemma text?_analyze_self (s : Session) (u : Uri) (text : Text) :
    (s.analyze u text).text? u = some text :=
  (Session.text?_analyze _ _ _ _).trans (if_pos rfl)

lemma text?_forget_self (s : Session) (disk : FileNode) (u : Uri) :
    (s.forget disk u).text? u = none :=
  (Session.text?_forget _ _ _ _).trans (if_pos rfl)

lemma edits?_countEdit (s : Session) (u : Uri) :
    (s.countEdit u).edits? u = some ((s.edits? u).getD 0 + 1) :=
  (UriMap.get?_insert _ _ _ _).trans (if_pos rfl)

/-- After an edit a check of the document waits. -/
lemma Tidy.tracks_edit (h : Tidy u t) (text : Text) :
    Tracks u { t with toTimeline := t.edit u text } := by
  have hopen : ((t.edit u text).session.text? u).isSome = true :=
    congrArg Option.isSome (text?_analyze_self t.session u text)
  have htidy : Tidy u { t with toTimeline := t.edit u text } := by
    refine ⟨?_, fun _ => hopen, h.told, h.numbered, h.shown_le⟩
    intro v hv
    obtain hv | rfl := mem_append.mp hv |>.imp_right mem_singleton.mp
    · exact h.about v hv
    · rfl
  refine htidy.tracks_of_waiting ⟨_, mem_append_right _ (mem_singleton_self _), ?_⟩
  rw [Validation.isCurrent, beq_iff_eq]
  change ((t.session.analyze u text).countEdit u).edits? u =
    some ((((t.session.analyze u text).countEdit u).edits? u).getD 0)
  rw [edits?_countEdit]
  rfl

lemma Tidy.analyze (h : Tidy u t) (text : Text) :
    Tidy u { t with session := t.session.analyze u text } :=
  { h with counted := fun _ => congrArg Option.isSome (text?_analyze_self t.session u text) }

lemma Tidy.forget (h : Tidy u t) : Tidy u { t with session := t.session.forget t.disk u } := by
  have hnone : (t.session.forget t.disk u).edits? u = none :=
    (UriMap.get?_erase _ _ _).trans (if_pos rfl)
  exact { h with counted := fun hcounted => by simp [hnone] at hcounted }

/-! ### Steps -/

lemma Tracks.handled (h : Tracks u t) (event : DocumentEvent) :
    Tracks u (t.step u (.handled event)) := by
  cases event with
  | opened text => exact h.toTidy.tracks_edit text
  | changed texts =>
    simp only [step, DocumentEvent.about, Timeline.handle]
    cases texts.getLast? with
    | some text => exact h.toTidy.tracks_edit text
    | none => exact h
  | saved text =>
    simp only [step, DocumentEvent.about, Timeline.handle]
    cases hnew : text.or (t.session.text? u) with
    | some new =>
      have htidy := h.toTidy.analyze new
      have hopen : ((t.session.analyze u new).text? u).isSome = true := by
        rw [text?_analyze_self, Option.isSome_some]
      rw [publish_of_open hopen]
      exact htidy.tracks_launch
    | none =>
      rw [publish_of_closed (Option.or_eq_none_iff.mp hnew).2]
      exact h
  | closed =>
    exact h.toTidy.forget.tracks_announce (text?_forget_self t.session t.disk u)

lemma Tracks.expired (h : Tracks u t) (index : Nat) : Tracks u (t.step u (.expired index)) := by
  rw [step]
  cases hv : t.waiting[index]? with
  | none => exact h
  | some v =>
    have hmem : v ∈ t.waiting := mem_of_getElem? hv
    have htidy : Tidy u { t with waiting := t.waiting.eraseIdx index } :=
      ⟨fun w hw => h.about w (mem_of_mem_eraseIdx hw), h.counted, h.told, h.numbered,
        h.shown_le⟩
    by_cases hcurrent : v.isCurrent t.session = true
    · -- The check begins: changes of the document are counted, hence it is open.
      have hopen : (t.session.text? u).isSome = true := by
        apply h.counted
        rw [Validation.isCurrent, beq_iff_eq, h.about v hmem] at hcurrent
        rw [hcurrent, Option.isSome_some]
      simp only [if_pos hcurrent, h.about v hmem, publish_of_open hopen]
      exact htidy.tracks_launch
    · -- The check does not count, so one that does still waits.
      have hwaiting : (∃ w ∈ t.waiting, w.isCurrent t.session = true) →
          ∃ w ∈ t.waiting.eraseIdx index, w.isCurrent t.session = true := by
        rintro ⟨w, hw, hwcurrent⟩
        refine ⟨w, ?_, hwcurrent⟩
        obtain ⟨i, hi⟩ := mem_iff_getElem?.mp hw
        refine mem_eraseIdx_iff_getElem?.mpr ⟨i, ?_, hi⟩
        rintro rfl
        rw [hv] at hi
        cases hi
        exact hcurrent hwcurrent
      simp only [if_neg hcurrent, foldl_nil]
      refine ⟨htidy, ?_, ?_⟩
      · intro p hp hnumber found hfound
        exact (h.newest p hp hnumber found hfound).imp_right hwaiting
      · intro hshown
        exact (h.shown hshown).imp_right hwaiting

lemma Tracks.completed (h : Tracks u t) (index : Nat) : Tracks u (t.step u (.completed index)) := by
  rw [step]
  cases hp : t.passes[index]? with
  | none => exact h
  | some p =>
    have hmem : p ∈ t.passes := mem_of_getElem? hp
    obtain ⟨found, hfound⟩ := h.told p hmem
    have hkept : ∀ q ∈ t.passes.eraseIdx index, q ∈ t.passes := fun q =>
      mem_of_mem_eraseIdx
    refine ⟨⟨h.about, h.counted, fun q hq => h.told q (hkept q hq),
      fun q hq => h.numbered q (hkept q hq), h.numbered p hmem⟩,
      fun q hq => h.newest q (hkept q hq), ?_⟩
    intro hnumber
    change t.IsFresh u ((t.record [p.notice]).lastPublished u.text)
    rw [hfound, lastPublished_record]
    exact h.newest p hmem hnumber found hfound

/-- **What one action keeps.** -/
lemma Tracks.step (h : Tracks u t) (action : CheckAction) : Tracks u (t.step u action) := by
  cases action with
  | handled event => exact h.handled event
  | expired index => exact h.expired index
  | completed index => exact h.completed index

/-- **What a run keeps.** -/
lemma Tracks.foldl (h : Tracks u t) (actions : List CheckAction) :
    Tracks u (actions.foldl (CheckedTimeline.step u) t) := by
  induction actions generalizing t with
  | nil => exact h
  | cons action actions ih => exact ih (h.step action)

/-! ## The start of a session -/

section Start

variable (disk : FileNode) (roots : List Path) (settings : Option Json)

lemma published_start : (start disk roots settings).published = .empty := by
  simp [start, Timeline.start, Timeline.finish, Timeline.pass, Timeline.record]

lemma documents_start :
    (start disk roots settings).session.documents = .empty ∧
      (start disk roots settings).session.edits = .empty := by
  change (Timeline.configure (Session.setRoots {} roots) settings).documents = .empty ∧
    (Timeline.configure (Session.setRoots {} roots) settings).edits = .empty
  unfold Timeline.configure
  split
  all_goals exact Session.documents_setRoots {} roots

lemma text?_start (u : Uri) : (start disk roots settings).session.text? u = none := by
  rw [Session.text?, (documents_start disk roots settings).1]
  rfl

lemma tracks_start (u : Uri) : Tracks u (start disk roots settings) := by
  have hpasses : (start disk roots settings).passes = [] := rfl
  have hwaiting : (start disk roots settings).waiting = [] := rfl
  have hedits : (start disk roots settings).session.edits? u = none := by
    rw [Session.edits?, (documents_start disk roots settings).2]
    rfl
  refine ⟨⟨?_, ?_, ?_, ?_, Nat.le_refl _⟩, ?_, ?_⟩
  · simp [hwaiting]
  · simp [hedits]
  · simp [hpasses]
  · simp [hpasses]
  · simp [hpasses]
  · intro _
    left
    rw [Timeline.lastPublished, published_start, Session.diagnostics?, text?_start]
    rfl

end Start

/-! ## Checks that are done in order -/

/-- The checks under way are the ones that began after the one told last, in order. -/
def InOrder (t : CheckedTimeline) : Prop :=
  t.passes.map Pass.number = List.range' (t.shown + 1) t.passes.length ∧
    t.shown + t.passes.length = t.begun

lemma InOrder.launch (h : t.InOrder) (notice : Notice) : (t.launch notice).InOrder := by
  obtain ⟨hnumbers, hbegun⟩ := h
  constructor
  · change (t.passes ++ [_]).map Pass.number = List.range' (t.shown + 1) (t.passes ++ [_]).length
    rw [map_append, length_append, length_singleton, range'_1_concat, hnumbers,
      map_singleton, ← hbegun, Nat.add_right_comm]
  · change t.shown + (t.passes ++ [_]).length = t.begun + 1
    rw [length_append, length_singleton, ← Nat.add_assoc, hbegun]

lemma InOrder.foldl_launch (h : t.InOrder) (notices : List Notice) :
    (notices.foldl CheckedTimeline.launch t).InOrder := by
  induction notices generalizing t with
  | nil => exact h
  | cons notice notices ih => exact ih (h.launch notice)

/-- The first of the checks under way is the next to be told. -/
lemma InOrder.completed (h : t.InOrder) : (t.step u (.completed 0)).InOrder := by
  cases hpasses : t.passes with
  | nil =>
    have hnone : t.passes[0]? = none := by rw [hpasses, getElem?_nil]
    rwa [CheckedTimeline.step, hnone]
  | cons p passes =>
    have hfirst : t.passes[0]? = some p := by rw [hpasses, getElem?_cons_zero]
    obtain ⟨hnumbers, hbegun⟩ := h
    rw [hpasses, map_cons, length_cons, range'_succ, List.cons.injEq] at hnumbers
    rw [hpasses, length_cons] at hbegun
    rw [CheckedTimeline.step, hfirst]
    simp only [InOrder, hpasses, eraseIdx_cons_zero, hnumbers.1]
    exact ⟨hnumbers.2, by omega⟩

lemma InOrder.handled (h : t.InOrder)
    (hevent : t.isOrderly (.handled event) = true) : (t.step u (.handled event)).InOrder := by
  cases event with
  | opened text => exact h
  | changed texts =>
    simp only [CheckedTimeline.step, DocumentEvent.about, Timeline.handle]
    cases texts.getLast? with
    | some text => exact h
    | none => exact h
  | saved text =>
    refine InOrder.foldl_launch ?_ _
    exact h
  | closed =>
    have hpasses : t.passes = [] := List.isEmpty_iff.mp hevent
    have hnone : (t.step u (.handled .closed)).passes = [] := hpasses
    rw [InOrder, hnone]
    exact ⟨rfl, rfl⟩

/-- **What one orderly action keeps.** -/
lemma InOrder.step (h : t.InOrder) (haction : t.isOrderly action = true) :
    (t.step u action).InOrder := by
  cases action with
  | handled event => exact h.handled haction
  | expired index =>
    rw [CheckedTimeline.step]
    cases t.waiting[index]? with
    | some v =>
      refine InOrder.foldl_launch ?_ _
      exact h
    | none => exact h
  | completed index =>
    obtain rfl : index = 0 := by simpa [isOrderly] using haction
    exact h.completed

/-- **What an orderly run keeps.** -/
lemma InOrder.foldl (h : t.InOrder) (hactions : allOrderly u t actions = true) :
    (actions.foldl (CheckedTimeline.step u) t).InOrder := by
  induction actions generalizing t with
  | nil => exact h
  | cons action actions ih =>
    rw [allOrderly, Bool.and_eq_true] at hactions
    exact ih (h.step hactions.1) hactions.2

/-! ## What the editor has open -/

@[simp] lemma session_foldl_launch (t : CheckedTimeline) (notices : List Notice) :
    (notices.foldl launch t).session = t.session := by
  induction notices generalizing t with
  | nil => rfl
  | cons notice notices ih => exact ih (t.launch notice)

lemma text?_handled (h : t.session.text? u = before)
    (hsaves : (CheckAction.handled event).savesOpen before = true) :
    (t.step u (.handled event)).session.text? u = event.buffer before := by
  cases event with
  | opened text => exact text?_analyze_self _ _ _
  | changed texts =>
    simp only [step, DocumentEvent.about, Timeline.handle, session_foldl_launch,
      DocumentEvent.buffer]
    cases texts.getLast? with
    | some text => exact text?_analyze_self _ _ _
    | none => exact h
  | saved text =>
    simp only [step, DocumentEvent.about, Timeline.handle, session_foldl_launch,
      DocumentEvent.buffer, h]
    cases text with
    | some text =>
      obtain ⟨old, rfl⟩ := Option.isSome_iff_exists.mp hsaves
      exact text?_analyze_self _ _ _
    | none =>
      cases before with
      | some old => exact text?_analyze_self _ _ _
      | none => exact h
  | closed => exact text?_forget_self t.session t.disk u

/-- One action changes the document as it does in the editor. -/
lemma text?_step (h : t.session.text? u = before) (hsaves : action.savesOpen before = true) :
    (t.step u action).session.text? u = action.buffer before := by
  cases action with
  | handled event => exact text?_handled h hsaves
  | expired index =>
    rw [step]
    cases t.waiting[index]? with
    | some v => exact (congrArg (Session.text? · u) (session_foldl_launch _ _)).trans h
    | none => exact h
  | completed index =>
    rw [step]
    cases t.passes[index]? with
    | some p => exact h
    | none => exact h

/-- A run changes the document as it does in the editor. -/
lemma text?_foldl (h : t.session.text? u = before)
    (hsaves : CheckAction.allSaveOpen before actions = true) :
    (actions.foldl (step u) t).session.text? u = actions.foldl CheckAction.buffer before := by
  induction actions generalizing t before with
  | nil => exact h
  | cons action actions ih =>
    rw [CheckAction.allSaveOpen, Bool.and_eq_true] at hsaves
    exact ih (text?_step h hsaves.1) hsaves.2

/-- **Published diagnostics catch up with the document.**  In a session in which a document is
opened, changed, saved and closed, and checks of it begin and are done in any order, the editor has
been told what holds of the document as it is there, once no check waits and none is under way: the
findings of its text if it is open, and none if it is closed.  The check told last has to be the
one that began last, as it is if checks are done in the order in which they begin and before the
document is closed; and a text must not be saved while the document is closed. -/
theorem published_converges (disk : FileNode) (roots : List Path) (settings : Option Json)
    (u : Uri) {actions : List CheckAction}
    (hsaves : CheckAction.allSaveOpen none actions = true) :
    let t := run disk roots settings u actions
    (allOrderly u (start disk roots settings) actions = true → t.passes = [] →
      t.shown = t.begun) ∧
    (t.waiting = [] → t.shown = t.begun →
      t.lastPublished u.text =
        ((actions.foldl CheckAction.buffer none).map fun text =>
          diagnose text (u.toPath?.any (·.isSystemFile)) t.session.store.view
            t.session.settings.findingOptions).getD []) := by
  intro t
  constructor
  · intro horderly hpasses
    have hstart : (start disk roots settings).InOrder := ⟨rfl, rfl⟩
    have hbegun : t.shown + t.passes.length = t.begun := (hstart.foldl horderly).2
    rwa [hpasses, length_nil, Nat.add_zero] at hbegun
  · intro hwaiting hshown
    have htracks : Tracks u t := (tracks_start disk roots settings u).foldl actions
    have htext : t.session.text? u = actions.foldl CheckAction.buffer none :=
      text?_foldl (text?_start disk roots settings u) hsaves
    rw [← htext]
    obtain hnow | ⟨v, hv, -⟩ := htracks.shown hshown
    · exact hnow
    · rw [hwaiting] at hv
      cases hv

/-- A check that no longer counts, and a second one that begins while the first is under way. -/
theorem published_converges_twoChecks :
    let u : Uri := ⟨"file".toList, some .empty, "/ws/a.src".toList, []⟩
    let halt : Text := "HALT\n".toList
    let actions : List CheckAction :=
      [.handled (.opened []), .handled (.changed [[], halt]), .expired 0, .expired 0,
        .handled (.saved none), .completed 0, .completed 0]
    let t := run .empty [] none u actions
    CheckAction.allSaveOpen none actions = true ∧
      allOrderly u (start .empty [] none) actions = true ∧ t.waiting = [] ∧
      t.lastPublished u.text =
        diagnose halt (u.toPath?.any (·.isSystemFile)) t.session.store.view
          t.session.settings.findingOptions ∧
      (t.lastPublished u.text).map Diagnostic.range = [⟨⟨0, 0⟩, ⟨0, 4⟩⟩] := by
  intro u halt actions
  -- The run is kept folded: its parts are evaluated one by one.
  dsimp only
  have hsaves : CheckAction.allSaveOpen none actions = true := by decide +kernel
  have horderly : allOrderly u (start .empty [] none) actions = true := by decide +kernel
  have hwaiting : (run .empty [] none u actions).waiting = [] := by decide +kernel
  have hpasses : (run .empty [] none u actions).passes = [] :=
    List.isEmpty_iff.mp (by decide +kernel)
  have hbuffer : actions.foldl CheckAction.buffer none = some halt := by decide +kernel
  obtain ⟨hlast, hpublished⟩ := published_converges .empty [] none u hsaves
  have htold := hpublished hwaiting (hlast horderly hpasses)
  rw [hbuffer, Option.map_some, Option.getD_some] at htold
  exact ⟨hsaves, horderly, hwaiting, htold, by decide +kernel⟩

/-- A document that is closed while a check of it is under way keeps the findings of the check; of
two checks under way the older may be told last; and a text that is saved after the document was
closed leaves findings of it. -/
theorem published_diverges :
    let u : Uri := ⟨"file".toList, some .empty, "/ws/a.src".toList, []⟩
    let halt : Text := "HALT\n".toList
    let closedBefore : List CheckAction :=
      [.handled (.opened halt), .expired 0, .handled .closed, .completed 0]
    let overtaken : List CheckAction :=
      [.handled (.opened halt), .expired 0, .handled (.saved (some [])), .completed 1,
        .completed 0]
    let savedLate : List CheckAction :=
      [.handled (.opened halt), .expired 0, .completed 0, .handled .closed,
        .handled (.saved (some halt)), .completed 0]
    let quietWith := fun (actions : List CheckAction) (ranges : List Range) =>
      let t := run .empty [] none u actions
      t.waiting = [] ∧ t.passes.isEmpty = true ∧
        (t.lastPublished u.text).map Diagnostic.range = ranges
    (quietWith closedBefore [⟨⟨0, 0⟩, ⟨0, 4⟩⟩] ∧
        closedBefore.foldl CheckAction.buffer none = none ∧
        CheckAction.allSaveOpen none closedBefore = true) ∧
      (quietWith overtaken [⟨⟨0, 0⟩, ⟨0, 4⟩⟩] ∧
        overtaken.foldl CheckAction.buffer none = some [] ∧
        ((run .empty [] none u overtaken).session.diagnostics? u).map List.length = some 0 ∧
        CheckAction.allSaveOpen none overtaken = true) ∧
      (quietWith savedLate [⟨⟨0, 0⟩, ⟨0, 4⟩⟩] ∧
        savedLate.foldl CheckAction.buffer none = none ∧
        allOrderly u (start .empty [] none) savedLate = true) := by
  decide +kernel

end CheckedTimeline
end KrlWorkbench
