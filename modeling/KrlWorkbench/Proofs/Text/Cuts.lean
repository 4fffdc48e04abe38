import KrlWorkbench.Text.Basic
import Mathlib.Data.List.Basic
import Mathlib.Tactic.Common

/-!
# Cuts at byte offsets

`takeBytes` and `dropBytes` count bytes, while everything about a text is proved by splitting the
list of its characters.  The two views meet in `takeBytes_append` and `dropBytes_append`: the
offset `byteLength a` cuts `a ++ b` between `a` and `b`, and no other split of the text is cut at
that offset (`append_inj_of_byteLength`).
-/

namespace KrlWorkbench.Text

open List

/-- A property of all characters of a text is decided by going through the text, not through all
characters there are. -/
instance (priority := 2000) decidableForallMem (p : Char → Prop) [DecidablePred p] (text : Text) :
    Decidable (∀ c ∈ text, p c) :=
  List.decidableBAll p text

/-! ## Measures -/

@[simp] lemma byteLength_reverse (a : Text) : byteLength a.reverse = byteLength a := by
  induction a with
  | nil => rfl
  | cons c rest ih => simp [ih, Nat.add_comm]

lemma length_le_byteLength (a : Text) : a.length ≤ byteLength a := by
  induction a with
  | nil => simp
  | cons c rest ih =>
    have hc := c.utf8Size_pos
    simp only [length_cons, byteLength_cons]
    omega

lemma byteLength_le_of_isPrefix {a b : Text} (h : a <+: b) : byteLength a ≤ byteLength b := by
  obtain ⟨rest, rfl⟩ := h
  simp

lemma byteLength_take_lt {text : Text} {i : Nat} (h : i < text.length) :
    byteLength (text.take i) < byteLength text := by
  have hsplit := congrArg byteLength (take_append_drop i text)
  have hrest := length_le_byteLength (text.drop i)
  rw [byteLength_append] at hsplit
  rw [length_drop] at hrest
  omega

lemma utf8Size_of_isAscii {c : Char} (h : isAscii c = true) : c.utf8Size = 1 := by
  have hlt : c.val.toNat < 128 := by simpa [isAscii] using h
  rw [Char.utf8Size_eq_one_iff, UInt32.le_iff_toNat_le]
  exact Nat.le_of_lt_succ hlt

lemma byteLength_eq_length {a : Text} (h : ∀ c ∈ a, isAscii c = true) :
    byteLength a = a.length := by
  induction a with
  | nil => rfl
  | cons c a ih =>
    rw [byteLength_cons, utf8Size_of_isAscii (h c mem_cons_self),
      ih (forall_mem_cons.mp h).2, length_cons, Nat.add_comm]

/-- In an ASCII text every byte offset falls between two characters. -/
lemma exists_append_of_isAscii {a : Text} (h : ∀ c ∈ a, isAscii c = true) {n : Nat}
    (hn : n ≤ byteLength a) : ∃ u v, a = u ++ v ∧ byteLength u = n := by
  refine ⟨a.take n, a.drop n, (take_append_drop _ _).symm, ?_⟩
  rw [byteLength_eq_length h] at hn
  rw [byteLength_eq_length fun c hc => h c (mem_of_mem_take hc), length_take_of_le hn]

lemma units_pos (c : Char) : 0 < units c := by
  rw [units]
  split <;> omega

/-! ## Cuts between characters -/

@[simp] lemma takeBytes_zero (a : Text) : takeBytes 0 a = [] := by
  cases a with
  | nil => rfl
  | cons c rest =>
    have hc := c.utf8Size_pos
    rw [takeBytes, if_neg (by omega)]

@[simp] lemma dropBytes_zero (a : Text) : dropBytes 0 a = a := by
  cases a with
  | nil => rfl
  | cons c rest =>
    have hc := c.utf8Size_pos
    rw [dropBytes, if_neg (by omega)]

lemma takeBytes_add_append (a b : Text) (n : Nat) :
    takeBytes (byteLength a + n) (a ++ b) = a ++ takeBytes n b := by
  induction a with
  | nil => simp
  | cons c rest ih =>
    rw [cons_append, takeBytes, byteLength_cons, if_pos (by omega)]
    have hsub : c.utf8Size + byteLength rest + n - c.utf8Size = byteLength rest + n := by omega
    rw [hsub, ih, cons_append]

lemma dropBytes_add_append (a b : Text) (n : Nat) :
    dropBytes (byteLength a + n) (a ++ b) = dropBytes n b := by
  have hwhole := takeBytes_append_dropBytes (byteLength a + n) (a ++ b)
  rw [takeBytes_add_append, append_assoc, append_cancel_left_eq] at hwhole
  exact append_cancel_left (hwhole.trans (takeBytes_append_dropBytes n b).symm)

@[simp] lemma takeBytes_append (a b : Text) : takeBytes (byteLength a) (a ++ b) = a := by
  simpa using takeBytes_add_append a b 0

@[simp] lemma dropBytes_append (a b : Text) : dropBytes (byteLength a) (a ++ b) = b := by
  simpa using dropBytes_add_append a b 0

@[simp] lemma takeBytes_byteLength (a : Text) : takeBytes (byteLength a) a = a := by
  simpa using takeBytes_append a []

@[simp] lemma dropBytes_byteLength (a : Text) : dropBytes (byteLength a) a = [] := by
  simpa using dropBytes_append a []

lemma byteLength_takeBytes_le (n : Nat) (a : Text) : byteLength (takeBytes n a) ≤ n := by
  fun_induction takeBytes n a with
  | case1 => simp
  | case2 n c rest hc ih =>
    rw [byteLength_cons]
    omega
  | case3 => simp

lemma takeBytes_isPrefix_of_le {m n : Nat} (h : m ≤ n) (a : Text) :
    takeBytes m a <+: takeBytes n a := by
  induction a generalizing m n with
  | nil => simp [takeBytes]
  | cons c a ih =>
    rw [takeBytes, takeBytes]
    by_cases hm : c.utf8Size ≤ m
    · rw [if_pos hm, if_pos (Nat.le_trans hm h)]
      exact cons_prefix_cons.mpr ⟨rfl, ih (Nat.sub_le_sub_right h _)⟩
    · rw [if_neg hm]
      exact nil_prefix

lemma takeBytes_append_of_le {n : Nat} {a : Text} (h : n ≤ byteLength a) (b : Text) :
    takeBytes n (a ++ b) = takeBytes n a := by
  induction a generalizing n with
  | nil =>
    obtain rfl : n = 0 := by simpa using h
    simp
  | cons c rest ih =>
    rw [cons_append, takeBytes, takeBytes]
    by_cases hc : c.utf8Size ≤ n
    · rw [if_pos hc, if_pos hc, ih (by simp only [byteLength_cons] at h; omega)]
    · rw [if_neg hc, if_neg hc]

lemma append_inj_of_byteLength {a a' b b' : Text} (h : a ++ b = a' ++ b')
    (hlen : byteLength a = byteLength a') : a = a' ∧ b = b' := by
  have htake := congrArg (takeBytes (byteLength a)) h
  have hdrop := congrArg (dropBytes (byteLength a)) h
  rw [takeBytes_append, hlen, takeBytes_append] at htake
  rw [dropBytes_append, hlen, dropBytes_append] at hdrop
  exact ⟨htake, hdrop⟩

end KrlWorkbench.Text
