import KrlWorkbench.Code.Block
import KrlWorkbench.Code.Rule
import KrlWorkbench.Proofs.CaseIndependence.Texts
import KrlWorkbench.Proofs.Text.Words

/-!
# Searching ignores case

A pattern whose character classes do not tell a small ASCII letter from its capital (`IgnoresCase`)
finds in a text in upper case what it finds in the text, in upper case.  The patterns of all rules
and of all block keywords are of that kind.

A search tries its ways in order and hands each end to a continuation.  `run_upper` is therefore
about continuations too: where these answer alike in both cases, so does the pattern in front of
them.
-/

namespace KrlWorkbench

open List Text

/-! ## Places and pieces in upper case -/

/-- The same piece, written in upper case. -/
def Capture.inUpper (c : Capture) : Capture :=
  ⟨c.start, upper c.text⟩

/-- The same place in the text in upper case. -/
def Cursor.inUpper (here : Cursor) : Cursor :=
  ⟨upper here.before, upper here.rest, here.offset⟩

/-- The same groups, written in upper case. -/
def Groups.inUpper (groups : Groups) : Groups :=
  groups.map fun entry => (entry.1, entry.2.inUpper)

/-- The same match, written in upper case. -/
def Match.inUpper (m : Match) : Match :=
  ⟨m.whole.inUpper, Groups.inUpper m.groups⟩

lemma Capture.stop_inUpper (c : Capture) : c.inUpper.stop = c.stop := by
  rw [stop, stop, inUpper, byteLength_upper]

lemma Cursor.past_inUpper (here : Cursor) (c : Char) (rest : Text) :
    here.inUpper.past (upperChar c) (upper rest) = (here.past c rest).inUpper := by
  rw [past, past, utf8Size_upperChar]
  rfl

lemma Cursor.upTo_inUpper (here there : Cursor) :
    here.inUpper.upTo there.inUpper = (here.upTo there).inUpper := by
  simp only [upTo, inUpper, Capture.inUpper, length_upper]
  rw [upper, upper, map_take]

namespace Match

lemma group?_inUpper (m : Match) (i : Nat) :
    m.inUpper.group? i = (m.group? i).map Capture.inUpper := by
  rw [group?, group?, inUpper]
  generalize m.groups = groups
  induction groups with
  | nil => rfl
  | cons entry rest ih =>
    rw [Groups.inUpper, map_cons, lookup_cons, lookup_cons]
    split
    · rfl
    · exact ih

lemma has_inUpper (m : Match) (i : Nat) : m.inUpper.has i = m.has i := by
  rw [has, has, group?_inUpper, Option.isSome_map]

lemma text_inUpper (m : Match) (i : Nat) : m.inUpper.text i = upper (m.text i) := by
  rw [text, text, group?_inUpper]
  cases m.group? i <;> rfl

lemma stop_whole_inUpper (m : Match) : m.inUpper.whole.stop = m.whole.stop :=
  Capture.stop_inUpper m.whole

end Match

namespace Pattern

/-! ## Patterns that ignore case -/

/-- All character classes of the pattern treat each small letter as its capital. -/
def IgnoresCase : Pattern → Prop
  | .one p => ∀ c, p (upperChar c) = p c
  | .many p => ∀ c, p (upperChar c) = p c
  | .seq a b => a.IgnoresCase ∧ b.IgnoresCase
  | .alt a b => a.IgnoresCase ∧ b.IgnoresCase
  | .group _ a => a.IgnoresCase
  | .empty => True
  | .textStart => True
  | .textEnd => True
  | .wordBoundary => True

lemma isWordBoundary_upper (before after : Text) :
    isWordBoundary (upper before).head? (upper after).head? =
      isWordBoundary before.head? after.head? := by
  simp only [isWordBoundary, head?_upper, Option.any_map, isWordChar_upperChar]

/-! ## One search -/

section Search

variable {β γ : Type} {f : β → γ} {p : Pattern}

lemma runMany_upper {q : Char → Bool} (hq : ∀ c, q (upperChar c) = q c)
    {next : Cursor → Option β} {next' : Cursor → Option γ}
    (hnext : ∀ there, next' there.inUpper = (next there).map f) (text : Text) (here : Cursor) :
    runMany q next' (upper text) here.inUpper = (runMany q next text here).map f := by
  induction text generalizing here with
  | nil => exact hnext here
  | cons c rest ih =>
    rw [upper_cons, runMany, runMany, hq, Cursor.past_inUpper, ih, hnext]
    split
    · cases runMany q next rest (here.past c rest) <;> rfl
    · rfl

/-- A pattern that ignores case answers alike in both cases if what follows it does. -/
lemma run_upper (hp : p.IgnoresCase) {next : Cursor → Groups → Option β}
    {next' : Cursor → Groups → Option γ}
    (hnext : ∀ there groups,
      next' there.inUpper (Groups.inUpper groups) = (next there groups).map f)
    (here : Cursor) (groups : Groups) :
    p.run here.inUpper (Groups.inUpper groups) next' = (p.run here groups next).map f := by
  -- On the pattern, for all continuations that answer alike.
  induction p generalizing here groups next next' with
  | empty => exact hnext here groups
  | one q =>
    rw [run, run, Cursor.inUpper]
    cases hrest : here.rest with
    | nil => rfl
    | cons c rest =>
      have hq : q (upperChar c) = q c := hp c
      simp only [upper_cons, hq]
      split
      · rw [← hnext, ← Cursor.past_inUpper, Cursor.inUpper, hrest, upper_cons]
      · rfl
  | many q => exact runMany_upper hp (fun there => hnext there groups) here.rest here
  | seq a b iha ihb =>
    obtain ⟨ha, hb⟩ := hp
    exact iha ha (fun there found => ihb hb hnext there found) here groups
  | alt a b iha ihb =>
    obtain ⟨ha, hb⟩ := hp
    rw [run, run, iha ha hnext, ihb hb hnext]
    cases a.run here groups next <;> rfl
  | group i a ih =>
    refine ih hp (fun there found => ?_) here groups
    rw [Cursor.upTo_inUpper]
    exact hnext there ((i, here.upTo there) :: found)
  | textStart =>
    have hbefore : here.inUpper.before.isEmpty = here.before.isEmpty := isEmpty_upper here.before
    rw [run, run, hnext, hbefore]
    split <;> rfl
  | textEnd =>
    have hrest : here.inUpper.rest.isEmpty = here.rest.isEmpty := isEmpty_upper here.rest
    rw [run, run, hnext, hrest]
    split <;> rfl
  | wordBoundary =>
    have hboundary : isWordBoundary here.inUpper.before.head? here.inUpper.rest.head? =
        isWordBoundary here.before.head? here.rest.head? :=
      isWordBoundary_upper here.before here.rest
    rw [run, run, hnext, hboundary]
    split <;> rfl

lemma matchAt_upper (hp : p.IgnoresCase) (here : Cursor) :
    p.matchAt here.inUpper =
      (p.matchAt here).map fun found => (found.1.inUpper, found.2.inUpper) := by
  refine run_upper hp (fun there groups => ?_) here []
  rw [Cursor.upTo_inUpper]
  rfl

lemma findFrom_upper (hp : p.IgnoresCase) (text : Text) (here : Cursor) :
    p.findFrom (upper text) here.inUpper = (p.findFrom text here).map Match.inUpper := by
  induction text generalizing here with
  | nil =>
    rw [upper_nil, findFrom, findFrom, matchAt_upper hp]
    cases p.matchAt here <;> rfl
  | cons c rest ih =>
    rw [upper_cons, findFrom, findFrom, matchAt_upper hp, Cursor.past_inUpper, ih]
    cases p.matchAt here <;> rfl

/-- The leftmost match in a text in upper case is the leftmost match in upper case. -/
lemma find?_upper (hp : p.IgnoresCase) (text : Text) :
    p.find? (upper text) = (p.find? text).map Match.inUpper :=
  findFrom_upper hp text (Cursor.ofText text)

lemma isIn_upper (hp : p.IgnoresCase) (text : Text) : p.isIn (upper text) = p.isIn text := by
  rw [isIn, isIn, find?_upper hp, Option.isSome_map]

/-! ## All matches -/

/-- The matches from the place behind the next character on. -/
def occurrencesPast (p : Pattern) (here : Cursor) (last : Option Nat) : List Match :=
  match here.rest with
  | [] => []
  | c :: rest => p.occurrencesFrom (here.past c rest) last

lemma occurrencesFrom_eq (p : Pattern) (here : Cursor) (last : Option Nat) :
    p.occurrencesFrom here last =
      match p.matchAt here with
      | none => p.occurrencesPast here last
      | some (m, there) =>
        if there.rest.length < here.rest.length then
          m :: p.occurrencesFrom there (some there.offset)
        else if last == some here.offset then p.occurrencesPast here last
        else m :: p.occurrencesPast here last := by
  rw [occurrencesFrom, occurrencesPast]
  cases here.rest <;> rfl

lemma occurrencesFrom_upper (hp : p.IgnoresCase) (here : Cursor) (last : Option Nat) :
    p.occurrencesFrom here.inUpper last = (p.occurrencesFrom here last).map Match.inUpper := by
  induction hlen : here.rest.length using Nat.strongRecOn generalizing here last with
  | ind n ih =>
    have hpast : p.occurrencesPast here.inUpper last =
        (p.occurrencesPast here last).map Match.inUpper := by
      rw [occurrencesPast, occurrencesPast, Cursor.inUpper]
      cases hrest : here.rest with
      | nil => rfl
      | cons c rest =>
        have h := ih rest.length (by simp [← hlen, hrest]) (here.past c rest) last rfl
        rw [← Cursor.past_inUpper, Cursor.inUpper, hrest] at h
        exact h
    rw [occurrencesFrom_eq, occurrencesFrom_eq, matchAt_upper hp, hpast]
    cases p.matchAt here with
    | none => rfl
    | some found =>
      obtain ⟨m, there⟩ := found
      have hshorter : there.inUpper.rest.length < here.inUpper.rest.length ↔
          there.rest.length < here.rest.length := by
        simp [Cursor.inUpper]
      simp only [Option.map_some, hshorter]
      by_cases hlt : there.rest.length < here.rest.length
      · rw [if_pos hlt, if_pos hlt, map_cons, ← ih there.rest.length (hlen ▸ hlt) there _ rfl]
        rfl
      · rw [if_neg hlt, if_neg hlt]
        have hoffset : here.inUpper.offset = here.offset := rfl
        rw [hoffset]
        split <;> rfl

lemma occurrences_upper (hp : p.IgnoresCase) (text : Text) :
    p.occurrences (upper text) = (p.occurrences text).map Match.inUpper :=
  occurrencesFrom_upper hp (Cursor.ofText text) none

end Search

end Pattern

/-! ## Rules and block keywords -/

namespace Pattern

@[simp] lemma ignoresCase_append {a b : Pattern} :
    (a ++ b).IgnoresCase ↔ a.IgnoresCase ∧ b.IgnoresCase := Iff.rfl

lemma ignoresCase_word (text : Text) : (word text).IgnoresCase := by
  induction text with
  | nil => trivial
  | cons c rest ih => exact ⟨sameFold_upperChar c, ih⟩

@[simp] lemma ignoresCase_keyword (k : String) : (keyword k).IgnoresCase :=
  ignoresCase_word k.toList

@[simp] lemma ignoresCase_anyKeyword (ks : List String) : (anyKeyword ks).IgnoresCase := by
  fun_induction anyKeyword ks with
  | case1 => exact fun _ => rfl
  | case2 k => exact ignoresCase_keyword k
  | case3 k ks _ ih => exact ⟨ignoresCase_keyword k, ih⟩

@[simp] lemma ignoresCase_blanks : blanks.IgnoresCase :=
  isBlank_upperChar

@[simp] lemma ignoresCase_gap : gap.IgnoresCase :=
  ⟨isBlank_upperChar, isBlank_upperChar⟩

@[simp] lemma ignoresCase_option {body : Pattern} : (option body).IgnoresCase ↔ body.IgnoresCase :=
  and_iff_left trivial

lemma ignoresCase_char {d : Char} (hd : isLetter d = false) : (char d).IgnoresCase :=
  beq_upperChar hd

lemma ignoresCase_wholeWord (name : Text) : (wholeWord name).IgnoresCase :=
  ⟨⟨trivial, ignoresCase_word name⟩, trivial⟩

end Pattern

namespace LineRule

open Pattern

lemma anyCaseInitial_upperChar (c : Char) : anyCaseInitial (upperChar c) = anyCaseInitial c := by
  rw [anyCaseInitial, fold_upperChar, beq_upperChar (by decide), anyCaseInitial]

lemma isNamePart_upperChar (c : Char) : isNamePart (upperChar c) = isNamePart c := by
  rw [isNamePart, isWordChar_upperChar, beq_upperChar (by decide), isNamePart]

lemma isDecimalDigit_upperChar (c : Char) : isDecimalDigit (upperChar c) = isDecimalDigit c :=
  apply_upperChar isDecimalDigit (by decide) c

lemma ignoresCase_pattern (rule : LineRule) : rule.pattern.IgnoresCase := by
  cases rule <;>
    simp [pattern, indent, maybe, skip, name, asciiName, systemName, parameters, sign, digits,
      speed, IgnoresCase, atLeastOne, isInLine, isSolid, bne, anyCaseInitial_upperChar,
      isNamePart_upperChar, isDecimalDigit_upperChar, isWordChar_upperChar, ignoresCase_wholeWord,
      ignoresCase_char, beq_upperChar, isLetter, Number.exponentMark_upperChar]

lemma find?_upper (rule : LineRule) (line : Text) :
    rule.find? (upper line) = (rule.find? line).map Match.inUpper :=
  Pattern.find?_upper rule.ignoresCase_pattern line

lemma holds_upper (rule : LineRule) (line : Text) : rule.holds (upper line) = rule.holds line :=
  Pattern.isIn_upper rule.ignoresCase_pattern line

end LineRule

namespace BlockKind

lemma ignoresCase_openerPattern (kind : BlockKind) : kind.openerPattern.IgnoresCase := by
  cases kind <;> simp [openerPattern, Pattern.IgnoresCase]

lemma ignoresCase_closerPattern (kind : BlockKind) : kind.closerPattern.IgnoresCase :=
  Pattern.ignoresCase_wholeWord kind.closer.toList

end BlockKind

namespace BlockEvent

lemma ofKind_upper (code : Text) (line : Nat) (kind : BlockKind) :
    ofKind (upper code) line kind = ofKind code line kind := by
  rw [ofKind, ofKind, Pattern.find?_upper kind.ignoresCase_openerPattern,
    Pattern.occurrences_upper kind.ignoresCase_closerPattern, map_map]
  cases kind.openerPattern.find? code with
  | none => rfl
  | some found => simp only [Option.map_some, Match.stop_whole_inUpper]; rfl

lemma ofLine_upper (code : Text) (line : Nat) : ofLine (upper code) line = ofLine code line := by
  simp only [ofLine, funext (ofKind_upper code line)]

end BlockEvent
end KrlWorkbench
