import KrlWorkbench.Proofs.Editing.FormatBlocks

/-!
# Indentation mirrors nesting

Laying out a document moves one number up and down.  In a document whose blocks are well nested that
number is the depth of the nesting, so a line is indented by the blocks around it.

What a line does to the depth is its role (`LineRole`), and the laid out line has the role of the
line it was made from (`LineRole.ofCode_content`).  The number is then a walk over roles
(`LineRole.levels`), which gives the lines of a well nested run the levels of their blocks and
leaves the run at the level at which it came (`LineRole.Nested.levels_append`).
-/

namespace KrlWorkbench.Layout

open List Text

variable {line word : Text}

/-! ## Roles of lines -/

lemma leadingWord_upper (code : Text) : leadingWord (upper code) = leadingWord code := by
  rw [leadingWord, leadingWord, Token.tokens_upper, indentBytes_upper]
  cases Token.tokens code with
  | nil => rfl
  | cons first rest =>
    cases rest <;> simp only [map_cons, map_nil, Token.inUpper, sameName_upper_left, upper_upper]

lemma opensLevel_upper (word code : Text) :
    opensLevel word (upper code) = opensLevel word code := by
  have hfind := fun kind : BlockKind => Pattern.find?_upper kind.ignoresCase_openerPattern code
  simp only [opensLevel, hfind]
  congr 1
  split
  case h_1 kind _ =>
    cases kind.openerPattern.find? code with
    | none => rfl
    | some found =>
      simp only [Option.map_some, Match.stop_whole_inUpper, dropBytes_upper,
        Pattern.isIn_upper kind.ignoresCase_closerPattern]
  case h_2 => rfl

/-- What a line does to the nesting. -/
inductive LineRole where
  | opener
  | closer
  /-- Ends one part of a block and begins the next. -/
  | separator
  | plain
  deriving DecidableEq, Repr

namespace LineRole

/-- The role of a line of code. -/
def ofCode (code : Text) : LineRole :=
  let word := leadingWord code
  if dedenting.contains word then
    if indenting.contains word then .separator else .closer
  else if opensLevel word code then .opener
  else .plain

/-- The role of a line; the blanks around it have no part in it. -/
def ofLine (line : Text) : LineRole :=
  ofCode (Code.clean (trim line))

/-- **Laying out keeps the roles.** -/
lemma ofCode_content (line : Text) : ofCode (Code.clean (content line)) = ofLine line := by
  have hupper : ∀ line, ofCode (Code.clean (upper line)) = ofCode (Code.clean line) := by
    intro line
    simp only [ofCode, Code.clean_upper, leadingWord_upper, opensLevel_upper]
  rw [← hupper, content, upper_raiseKeywords, hupper, ofLine]

/-- The level at which a line of this role stands, from the level before it. -/
def levelIn (level : Nat) : LineRole → Nat
  | .opener | .plain => level
  | .closer | .separator => level - 1

/-- The level behind a line of this role. -/
def next (level : Nat) : LineRole → Nat
  | .opener => level + 1
  | .closer => level - 1
  | .separator => level - 1 + 1
  | .plain => level

/-- A word that ends a level and begins one is no keyword of a block, so it always begins one. -/
lemma opensLevel_of_dedents (hdedents : dedenting.contains word = true) (code : Text) :
    opensLevel word code = indenting.contains word := by
  have hall : ∀ word ∈ dedenting, indenting.contains word = true →
      BlockKind.ofKeyword? word = none := by
    decide +kernel
  rw [opensLevel]
  cases hindents : indenting.contains word with
  | false => rfl
  | true =>
    rw [hall word (by simpa using hdedents) hindents]
    rfl

/-- **Step.**  A line stands at the level that its role says and leaves behind the level that its
role says. -/
lemma level_layLine (o : Options) (s : State) (line : Text) :
    levelOf s line = (ofCode (Code.clean line)).levelIn s.level ∧
      (layLine o s line).2.level = (ofCode (Code.clean line)).next s.level := by
  have hlevel : (layLine o s line).2.level =
      if opensLevel (leadingWord (Code.clean line)) (Code.clean line) then levelOf s line + 1
      else levelOf s line := rfl
  rw [hlevel, levelOf, ofCode]
  cases hdedents : dedenting.contains (leadingWord (Code.clean line)) with
  | true =>
    rw [opensLevel_of_dedents hdedents]
    cases indenting.contains (leadingWord (Code.clean line)) <;> exact ⟨rfl, rfl⟩
  | false => cases opensLevel (leadingWord (Code.clean line)) (Code.clean line) <;> exact ⟨rfl, rfl⟩

/-- Lines of these roles with the levels at which they stand. -/
def levels (level : Nat) : List LineRole → List (LineRole × Nat)
  | [] => []
  | role :: roles => (role, role.levelIn level) :: levels (role.next level) roles

/-- Lines at some depth, each with the depth of its block: openers and closers pair up like brackets
and stand where the block stands, what is between them stands one further in, and separators, which
are found only there, stand with the opener. -/
inductive Nested : Nat → List (LineRole × Nat) → Prop
  | nil (depth : Nat) : Nested depth []
  | plain {depth : Nat} {rest : List (LineRole × Nat)} (h : Nested depth rest) :
      Nested depth ((.plain, depth) :: rest)
  | separator {depth : Nat} {rest : List (LineRole × Nat)} (h : Nested (depth + 1) rest) :
      Nested (depth + 1) ((.separator, depth) :: rest)
  | block {depth : Nat} {inner rest : List (LineRole × Nat)} (hinner : Nested (depth + 1) inner)
      (h : Nested depth rest) :
      Nested depth ((.opener, depth) :: (inner ++ (.closer, depth) :: rest))

/-- **Run.**  The walk gives well nested lines their depths and goes on from where it came. -/
lemma Nested.levels_append {depth : Nat} {lines : List (LineRole × Nat)} (h : Nested depth lines)
    (roles : List LineRole) :
    levels depth (lines.map Prod.fst ++ roles) = lines ++ levels depth roles := by
  induction h generalizing roles with
  | nil => rfl
  | plain _ ih => exact congrArg _ (ih roles)
  | separator _ ih => exact congrArg _ (ih roles)
  | @block depth inner rest _ _ ihinner ih =>
    have hinside := ihinner (.closer :: (rest.map Prod.fst ++ roles))
    rw [levels, levelIn, next, Nat.add_sub_cancel, ih] at hinside
    simpa [levels, levelIn, next] using hinside

end LineRole

/-! ## The document -/

/-- The blanks that a line begins with. -/
def indentOf (line : Text) : Text :=
  line.takeWhile isBlank

/-- A laid out line begins with the indentation of its level and has the role of the line that it
was made from. -/
lemma role_indent_indented (o : Options) (s : State) (h : trim line ≠ []) :
    LineRole.ofLine (indented o s (content line)) = LineRole.ofLine line ∧
      indentOf (indented o s (content line)) =
        indentation o ((LineRole.ofLine line).levelIn s.level) := by
  have hnormal := isNormal_content h
  constructor
  · rw [LineRole.ofLine, trim_indented o s hnormal, LineRole.ofCode_content]
  · have hsolid : (content line).takeWhile isBlank = [] := by
      obtain ⟨c, rest, hline⟩ := exists_cons_of_ne_nil hnormal.ne_nil
      have hhead := head?_trim (content line)
      rw [hnormal.trim_eq, hline] at hhead
      rw [hline]
      exact takeWhile_cons_of_neg (by simpa using find?_some hhead.symm)
    rw [indentOf, indented, takeWhile_append_of_pos isBlank_of_mem_indentation, hsolid, append_nil,
      (LineRole.level_layLine o s _).1, LineRole.ofCode_content]

/-- **Run.**  The lines that hold something are laid out at the levels of their roles. -/
lemma map_solidLines_layLines (o : Options) (s : State) (lines : List Text) :
    (solidLines (layLines o s lines)).map (fun line => (LineRole.ofLine line, indentOf line)) =
      (LineRole.levels s.level ((solidLines lines).map LineRole.ofLine)).map
        fun (role, level) => (role, indentation o level) := by
  induction lines generalizing s with
  | nil => rfl
  | cons line lines ih =>
    by_cases htrim : trim line = []
    · rw [layLines_of_trim_eq_nil o s htrim, solidLines_cons_of_blank rfl,
        solidLines_cons_of_blank htrim, ih]
      rfl
    · obtain ⟨hrole, hindent⟩ := role_indent_indented o s htrim
      rw [solidLines_layLines_of_solid o s htrim, solidLines_cons_of_solid htrim, map_cons, ih,
        hrole, hindent, (LineRole.level_layLine o s _).2, LineRole.ofCode_content]
      rfl

/-- **Indentation mirrors nesting.** Let the lines of a document that hold something be well nested.
Laid out they have the same roles, and each is indented by the depth of its block: one that ends a
block or separates its parts like the opener of the block, any other line of the block by one unit
more, and a line outside all blocks not at all. -/
theorem format_indents_by_nesting (o : Options) (text : Text) {nest : List (LineRole × Nat)}
    (hnested : LineRole.Nested 0 nest)
    (hroles : (solidLines (linesOf text)).map LineRole.ofLine = nest.map Prod.fst) :
    (solidLines (linesOf (format o text))).map (fun line => (LineRole.ofLine line, indentOf line)) =
      nest.map fun (role, depth) => (role, indentation o depth) := by
  have hlaid := map_solidLines_layLines o {} (linesOf text)
  have hlevels := hnested.levels_append []
  rw [append_nil, LineRole.levels, append_nil] at hlevels
  rw [hroles, hlevels] at hlaid
  rw [solidLines_linesOf_format]
  exact hlaid

/-- A routine with a branch in two parts, and a comment behind it. -/
theorem format_indents_by_nesting_branch :
    let text : Text := "def m()\nif a then\nx = 1\n\nelse\n y = 2\nendif\nend\n  ; done".toList
    let o : Options := ⟨4, false, true, true⟩
    let nest : List (LineRole × Nat) := [(.opener, 0), (.opener, 1), (.plain, 2), (.separator, 1),
      (.plain, 2), (.closer, 1), (.closer, 0), (.plain, 0)]
    LineRole.Nested 0 nest ∧
      (solidLines (linesOf text)).map LineRole.ofLine = nest.map Prod.fst ∧
      (solidLines (linesOf (format o text))).map
          (fun line => (LineRole.ofLine line, indentOf line)) =
        nest.map fun (role, depth) => (role, indentation o depth) := by
  intro text o nest
  have hbranch : LineRole.Nested 1 ((.opener, 1) :: ([(.plain, 2), (.separator, 1), (.plain, 2)] ++
      [(.closer, 1)])) :=
    .block (.plain (.separator (.plain (.nil 2)))) (.nil 1)
  have hnested : LineRole.Nested 0 nest := .block hbranch (.plain (.nil 0))
  have hroles : (solidLines (linesOf text)).map LineRole.ofLine = nest.map Prod.fst := by
    decide +kernel
  exact ⟨hnested, hroles, format_indents_by_nesting o text hnested hroles⟩

end KrlWorkbench.Layout
