import KrlWorkbench.File.Tree
import KrlWorkbench.Proofs.Code.Clean
import KrlWorkbench.Proofs.Text.FoldClass
import KrlWorkbench.Proofs.Text.Positions
import Mathlib.Order.Bounds.Basic

/-!
# Masking byte by byte

Strings are blanked out character by character, comments are found by their semicolon, and whether a
place is in a string is a matter of the quotes before it.  The three agree about every byte of every
line (`mask_agrees_with_inString`): a byte of a masked line is what the quotes before it make of it,
since a character outside ASCII has no byte below 128, and the comment starts at the first semicolon
that masking leaves.
-/

namespace KrlWorkbench.Code

open List Text

variable {a line : Text} {b : UInt8} {c : Char} {i : Nat}

/-! ## Bytes of characters -/

lemma bytes_append (a b : Text) : bytes (a ++ b) = bytes a ++ bytes b :=
  flatMap_append

lemma length_bytes (a : Text) : (bytes a).length = byteLength a := by
  induction a with
  | nil => rfl
  | cons c a ih => simpa [bytes] using ih

lemma le_of_mem_utf8EncodeChar (h : isAscii c = false) (hb : b ∈ String.utf8EncodeChar c) :
    128 ≤ b := by
  have hlarge : ¬c.val.toNat ≤ 127 := by
    have hnot : ¬c.val.toNat < 128 := by simpa [isAscii] using h
    omega
  rw [UInt8.le_iff_toNat_le]
  simp only [String.utf8EncodeChar, if_neg hlarge] at hb
  split_ifs at hb <;> simp only [mem_cons, not_mem_nil, or_false] at hb <;>
    rcases hb with rfl | rfl | rfl | rfl <;> simp <;> omega

/-- The byte of a semicolon is no other character's. -/
lemma semicolon_mem_of_mem_bytes (h : 59 ∈ bytes a) : ';' ∈ a := by
  obtain ⟨c, hc, hb⟩ := mem_flatMap.mp h
  cases hascii : isAscii c with
  | true =>
    have hsemi := forall_of_isAscii (P := fun c => 59 ∈ String.utf8EncodeChar c → c = ';')
      (by decide +kernel) hascii hb
    rwa [← hsemi]
  | false => exact absurd (le_of_mem_utf8EncodeChar hascii hb) (by decide)

/-! ## Masked bytes -/

/-- What masking makes of a byte: quotes, and in strings all of ASCII, become spaces. -/
def maskByte (inside : Bool) (b : UInt8) : UInt8 :=
  if b = 34 ∨ b < 128 ∧ inside = true then 32 else b

lemma bytes_maskFrom_singleton (inside : Bool) (c : Char) :
    bytes (maskFrom inside [c]) = (bytes [c]).map (maskByte inside) := by
  cases hc : isAscii c with
  | true =>
    exact forall_of_isAscii (P := fun c => bytes (maskFrom inside [c]) =
      (bytes [c]).map (maskByte inside)) (by cases inside <;> decide +kernel) hc
  | false =>
    have hquote : c ≠ '"' := by
      rintro rfl
      exact absurd hc (by decide)
    have hkept : ∀ b ∈ bytes [c], maskByte inside b = b := by
      intro b hb
      have hge := le_of_mem_utf8EncodeChar hc (by simpa [bytes] using hb)
      refine if_neg ?_
      rintro (rfl | ⟨hlt, -⟩)
      · exact absurd hge (by decide)
      · exact UInt8.not_lt.mpr hge hlt
    rw [map_congr_left hkept, map_id']
    simp [maskFrom, hquote, hc]

/-- Masking goes byte by byte, by the quotes before each. -/
lemma getElem?_bytes_maskFrom (inside : Bool) (line : Text) (i : Nat) :
    (bytes (maskFrom inside line))[i]? =
      (bytes line)[i]?.map (maskByte (insideAfter inside (takeBytes i line))) := by
  induction line generalizing inside i with
  | nil => rfl
  | cons c rest ih =>
    have hlength : (bytes [c]).length = c.utf8Size := length_bytes [c]
    rw [← singleton_append, maskFrom_append, bytes_append, bytes_append, bytes_maskFrom_singleton,
      singleton_append, takeBytes]
    by_cases hi : i < c.utf8Size
    · rw [getElem?_append_left (by simpa [hlength] using hi), getElem?_append_left (by omega),
        getElem?_map, if_neg (by omega), insideAfter_nil]
    · rw [getElem?_append_right (by simpa [hlength] using hi), getElem?_append_right (by omega),
        if_pos (by omega), length_map, hlength, ih]
      rfl

lemma getElem?_bytes_mask (line : Text) (i : Nat) :
    (bytes (mask line))[i]? = (bytes line)[i]?.map (maskByte (inString line i)) := by
  have hinside : insideAfter false (takeBytes i line) = inString line i := by
    rw [insideAfter_eq, inString]
    simp
  rw [mask, getElem?_bytes_maskFrom, hinside]

lemma getElem?_bytes_mask_eq_semicolon : (bytes (mask line))[i]? = some 59 ↔
    (bytes line)[i]? = some 59 ∧ inString line i = false := by
  rw [getElem?_bytes_mask, Option.map_eq_some_iff]
  constructor
  · rintro ⟨b, hb, hmask⟩
    rw [maskByte] at hmask
    split at hmask
    case isTrue => exact absurd hmask (by decide)
    case isFalse hkept =>
      subst hmask
      exact ⟨hb, Bool.eq_false_iff.mpr fun hin => hkept (.inr ⟨by decide, hin⟩)⟩
  · rintro ⟨hb, hin⟩
    exact ⟨59, hb, by rw [hin]; rfl⟩

lemma isBoundary_mask (n : Nat) (line : Text) : isBoundary n (mask line) = isBoundary n line := by
  rw [Bool.eq_iff_iff]
  constructor
  · intro h
    obtain ⟨a, b, hmask, rfl⟩ := exists_append_of_isBoundary h
    obtain ⟨a', b', rfl, rfl, -⟩ := exists_append_of_maskFrom_eq hmask
    rw [byteLength_maskFrom, isBoundary_append]
  · intro h
    obtain ⟨a, b, rfl, rfl⟩ := exists_append_of_isBoundary h
    rw [mask, maskFrom_append, ← byteLength_maskFrom false a, isBoundary_append]

/-! ## Comments and cleaned lines -/

/-- The semicolon of a comment stands outside strings. -/
lemma insideAfter_codePart {rest : Text} (h : codePart line ++ ';' :: rest = line) :
    insideAfter false (codePart line) = false := by
  have hcode := codeFrom_append (semicolon_notMem_clean line) (';' :: rest)
  rw [h, ← codePart, self_eq_append_right] at hcode
  cases hin : insideAfter false (codePart line) with
  | false => rfl
  | true => simp [hin, codeFrom] at hcode

/-- A comment starts at the first semicolon that masking leaves. -/
lemma commentStart_eq_some_iff : commentStart line = some i ↔
    IsLeast {i | (bytes (mask line))[i]? = some 59} i := by
  have hnone : 59 ∉ bytes (clean line) := fun h =>
    semicolon_notMem_clean line (semicolon_mem_of_mem_bytes h)
  obtain ⟨comment, hline, rfl | ⟨rest, rfl⟩⟩ := exists_comment false line
  · rw [append_nil, ← codePart] at hline
    refine iff_of_false (by simp [commentStart, hline]) fun h => hnone ?_
    rw [clean, hline]
    exact mem_of_getElem? h.1
  · rw [← codePart] at hline
    have hmask : bytes (mask line) = bytes (clean line) ++ 59 :: bytes (mask rest) := by
      conv => lhs; rw [← hline, mask, maskFrom_append, insideAfter_codePart hline, bytes_append]
      rfl
    have hstart : commentStart line = some (bytes (clean line)).length := by
      have hlt : (codePart line).length < line.length := by
        conv => rhs; rw [← hline]
        simp
      rw [commentStart, length_bytes, byteLength_clean]
      exact if_pos hlt
    have hleast : IsLeast {i | (bytes (mask line))[i]? = some 59} (bytes (clean line)).length := by
      rw [hmask]
      refine ⟨by simp, fun i hi => Nat.le_of_not_lt fun hlt => hnone ?_⟩
      exact mem_of_getElem? ((getElem?_append_left hlt).symm.trans hi)
    rw [hstart, Option.some.injEq]
    exact ⟨fun h => h ▸ hleast, hleast.unique⟩

lemma mask_clean (line : Text) : mask (clean line) = clean line :=
  maskFrom_false_of_not_mem fun h =>
    forall_mem_maskFrom (p := (· ≠ '"')) (by decide) (fun _ _ hc => hc) false _ h rfl

lemma codePart_clean (line : Text) : codePart (clean line) = clean line := by
  have hsemi : ';' ∉ maskFrom false (clean line) := by
    rw [← mask, mask_clean]
    exact semicolon_notMem_clean line
  simpa [codeFrom, codePart] using codeFrom_append hsemi []

/-- **Masking, comments and strings agree about every byte.**  A masked line has the bytes of the
line, with spaces (32) for the quotes (34) and for the ASCII bytes in strings, and its characters
begin at the same bytes.  The comment starts at the first semicolon (59) outside strings.  A cleaned
line is all code and is not changed by cleaning it again. -/
theorem mask_agrees_with_inString (line : Text) :
    byteLength (mask line) = byteLength line ∧
    (∀ n, isBoundary n (mask line) = isBoundary n line) ∧
    (∀ i, (bytes (mask line))[i]? = (bytes line)[i]?.map fun b =>
      if b = 34 ∨ b < 128 ∧ inString line i = true then 32 else b) ∧
    (∀ i, commentStart line = some i ↔
      IsLeast {i | (bytes line)[i]? = some 59 ∧ inString line i = false} i) ∧
    clean (clean line) = clean line ∧ codePart (clean line) = clean line := by
  refine ⟨byteLength_mask line, fun n => isBoundary_mask n line, getElem?_bytes_mask line, ?_, ?_,
    codePart_clean line⟩
  · intro i
    rw [commentStart_eq_some_iff]
    simp only [getElem?_bytes_mask_eq_semicolon]
  · rw [clean, codePart_clean, mask_clean]

end KrlWorkbench.Code
