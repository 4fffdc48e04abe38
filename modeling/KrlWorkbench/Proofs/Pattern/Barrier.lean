import KrlWorkbench.Proofs.Renaming.Tracking

/-!
# What stands behind a barrier

A character that none of a pattern's classes has is a barrier to the pattern: no way to fit reads it
(`Fits.not_mem_of_stopsAt`), so a run does not see what stands behind it.  Two texts that are alike
up to a barrier give the same ways, in the same order and with the same groups, to whatever has to
follow (`rel_run_of_stopsAt`).
-/

namespace KrlWorkbench

open List Text

namespace Pattern

/-- No class of the pattern has the character. -/
def stopsAt (c : Char) : Pattern → Bool
  | .one f => !f c
  | .many f => !f c
  | .seq p q => p.stopsAt c && q.stopsAt c
  | .alt p q => p.stopsAt c && q.stopsAt c
  | .group _ p => p.stopsAt c
  | _ => true

variable {p : Pattern} {c : Char}

/-- A pattern reads no character at which it stops. -/
lemma Fits.not_mem_of_stopsAt {here : Cursor} {u v : Text} {found : Groups}
    (h : Fits p here u v found) (hp : p.stopsAt c = true) : c ∉ u := by
  induction h with
  | empty => simp
  | one here hd v =>
    rintro hmem
    obtain rfl := mem_singleton.mp hmem
    simp [stopsAt, hd] at hp
  | many here hu v =>
    intro hmem
    simp [stopsAt, hu c hmem] at hp
  | seq _ _ ihp ihq =>
    rw [stopsAt, Bool.and_eq_true] at hp
    intro hmem
    rcases mem_append.mp hmem with hmem | hmem
    · exact ihp hp.1 hmem
    · exact ihq hp.2 hmem
  | altLeft _ ih =>
    rw [stopsAt, Bool.and_eq_true] at hp
    exact ih hp.1
  | altRight _ ih =>
    rw [stopsAt, Bool.and_eq_true] at hp
    exact ih hp.2
  | group _ _ ih => exact ih hp
  | textStart => simp
  | textEnd => simp
  | wordBoundary => simp

section Run

variable {β : Type} {R : β → β → Prop} {b b' : Text}

lemma rel_runMany_of_refused {f : Char → Bool} (hf : f c = false) {x a : Text}
    {next next' : Cursor → Option β}
    (hnext : ∀ u a', a = u ++ a' →
      Option.Rel R (next (between (x ++ u) (a' ++ c :: b)))
        (next' (between (x ++ u) (a' ++ c :: b')))) :
    Option.Rel R (runMany f next (a ++ c :: b) (between x (a ++ c :: b)))
      (runMany f next' (a ++ c :: b') (between x (a ++ c :: b'))) := by
  induction a generalizing x with
  | nil =>
    rw [nil_append, nil_append, runMany_cons, runMany_cons, if_neg (by simp [hf]),
      if_neg (by simp [hf])]
    simpa using hnext [] [] rfl
  | cons d a ih =>
    have hhere : Option.Rel R (next (between x (d :: a ++ c :: b)))
        (next' (between x (d :: a ++ c :: b'))) := by
      simpa using hnext [] (d :: a) rfl
    rw [cons_append, cons_append, runMany_cons, runMany_cons]
    by_cases hd : f d = true
    · rw [if_pos hd, if_pos hd, past_between, past_between]
      refine rel_or (ih fun u a' ha => ?_) hhere
      have hlater := hnext (d :: u) a' (by rw [ha, cons_append])
      simpa using hlater
    · rw [if_neg hd, if_neg hd]
      exact hhere

/-- **Nothing behind a barrier is seen.**  On texts that are alike up to a barrier a run hands the
same places and groups to what follows. -/
lemma rel_run_of_stopsAt (hp : p.stopsAt c = true) {x a : Text} {g : Groups}
    {next next' : Cursor → Groups → Option β}
    (hnext : ∀ u a' g, a = u ++ a' →
      Option.Rel R (next (between (x ++ u) (a' ++ c :: b)) g)
        (next' (between (x ++ u) (a' ++ c :: b')) g)) :
    Option.Rel R (p.run (between x (a ++ c :: b)) g next)
      (p.run (between x (a ++ c :: b')) g next') := by
  -- On the pattern, for all continuations: a sequence hands its second part to the first.
  induction p generalizing x a g next next' with
  | empty => simpa [run] using hnext [] a g rfl
  | one f =>
    cases a with
    | nil =>
      have hc : f c = false := by simpa [stopsAt] using hp
      simp only [run, between, nil_append, hc, Bool.false_eq_true, if_false]
      exact .none
    | cons d a =>
      simp only [run, between, cons_append]
      by_cases hd : f d = true
      · rw [if_pos hd, if_pos hd]
        have hlater := hnext [d] a g rfl
        simpa [between, Cursor.past] using hlater
      · rw [if_neg hd, if_neg hd]
        exact .none
  | many f =>
    have hc : f c = false := by simpa [stopsAt] using hp
    exact rel_runMany_of_refused hc fun u a' ha => hnext u a' g ha
  | seq p q ihp ihq =>
    rw [stopsAt, Bool.and_eq_true] at hp
    refine ihp hp.1 ?_
    rintro u a' g rfl
    refine ihq hp.2 ?_
    rintro w a'' g rfl
    have hlater := hnext (u ++ w) a'' g (append_assoc _ _ _).symm
    rwa [← append_assoc] at hlater
  | alt p q ihp ihq =>
    rw [stopsAt, Bool.and_eq_true] at hp
    rw [run_alt, run_alt]
    exact rel_or (ihp hp.1 hnext) (ihq hp.2 hnext)
  | group i p ih =>
    refine ih hp ?_
    rintro u a' g rfl
    rw [append_assoc, append_assoc, upTo_between, upTo_between]
    exact hnext u a' _ rfl
  | textStart => exact rel_ite (by simpa using hnext [] a g rfl)
  -- Both texts go on at least to the barrier.
  | textEnd =>
    rw [run, run, if_neg (by simp [between]), if_neg (by simp [between])]
    exact .none
  | wordBoundary =>
    have hhead : (a ++ c :: b).head? = (a ++ c :: b').head? := by cases a <;> rfl
    simp only [run, between, hhead]
    exact rel_ite (by simpa [between] using hnext [] a g rfl)

end Run

end Pattern
end KrlWorkbench
