import KrlWorkbench.Text.CodeTable

/-!
# Percent escapes

A character that may not stand in a part of a URI is written as the bytes of its UTF-8 form, each
as a percent sign and two hexadecimal digits.  Which characters may stand depends on the part;
control characters and those outside ASCII never may.

Main statement: `decode_encodeBytes_append`, bytes that were written with escapes are read back.
-/

namespace KrlWorkbench.Escape

open Text

/-! ## Classes of characters -/

/-- Characters escaped in every part: control characters and those outside ASCII. -/
def always (c : Char) : Bool :=
  !isAscii c || c.toNat < 32 || c.toNat == 127

/-- Characters escaped in a fragment. -/
def inFragment (c : Char) : Bool :=
  always c || c == ' ' || c == '"' || c == '<' || c == '>' || c.toNat == 96

def inQuery (isSpecial : Bool) (c : Char) : Bool :=
  always c || c == ' ' || c == '"' || c == '#' || c == '<' || c == '>' || (isSpecial && c == '\'')

def inPath (c : Char) : Bool :=
  inFragment c || c == '#' || c == '?' || c == '\x7b' || c == '\x7d'

/-- Characters escaped in the name of a user and in a password. -/
def inUser (c : Char) : Bool :=
  inPath c || "/:;=@[\\]^|".toList.contains c

/-- Characters escaped in the name of a file. -/
def inFileName (c : Char) : Bool :=
  inPath c || c == '/' || c == '%' || c == '\\'

/-! ## Writing and reading -/

def digit (n : Nat) : Char :=
  if n < 10 then Char.ofNat (n + 48) else Char.ofNat (n + 55)

def byte (b : UInt8) : Text :=
  ['%', digit (b.toNat / 16), digit (b.toNat % 16)]

/-- Writes a text with escapes for the characters of a class. -/
def encode (isEscaped : Char → Bool) (text : Text) : Text :=
  text.flatMap fun c => if isEscaped c then (String.utf8EncodeChar c).flatMap byte else [c]

/-- Writes bytes; those of ASCII characters outside the class stand as they are. -/
def encodeBytes (isEscaped : Char → Bool) (bytes : List UInt8) : Text :=
  bytes.flatMap fun b =>
    let c := Char.ofNat b.toNat
    if isEscaped c then byte b else [c]

/-- The bytes of a text, escapes resolved. A percent sign without two digits stands for itself. -/
def decode : Text → List UInt8
  | [] => []
  | '%' :: a :: b :: rest =>
    match hexValue? a, hexValue? b with
    | some x, some y => UInt8.ofNat (16 * x + y) :: decode rest
    | _, _ => String.utf8EncodeChar '%' ++ decode (a :: b :: rest)
  | c :: rest => String.utf8EncodeChar c ++ decode rest

/-! ## Reading what was written -/

theorem hexValue?_digit {n : Nat} (h : n < 16) : hexValue? (digit n) = some n := by
  have every : ∀ m ∈ List.range 16, hexValue? (digit m) = some m := by decide
  exact every n (List.mem_range.mpr h)

@[simp] theorem decode_byte (b : UInt8) (rest : Text) :
    decode (byte b ++ rest) = b :: decode rest := by
  have hb : b.toNat < 256 := b.toNat_lt
  have hv : 16 * (b.toNat / 16) + b.toNat % 16 = b.toNat := by omega
  simp only [byte, List.cons_append, List.nil_append]
  rw [decode]
  simp [hexValue?_digit (show b.toNat / 16 < 16 by omega),
    hexValue?_digit (show b.toNat % 16 < 16 by omega), hv]

theorem decode_cons {c : Char} (h : c ≠ '%') (rest : Text) :
    decode (c :: rest) = String.utf8EncodeChar c ++ decode rest := by
  rw [decode]
  intro a b tail hc
  exact absurd hc h

theorem toNat_ofByte (b : UInt8) : (Char.ofNat b.toNat).toNat = b.toNat := by
  have hb : b.toNat < 256 := b.toNat_lt
  exact toNat_ofNat (.inl (by omega))

theorem utf8EncodeChar_ofByte {b : UInt8} (h : b.toNat < 128) :
    String.utf8EncodeChar (Char.ofNat b.toNat) = [b] := by
  have hn : (Char.ofNat b.toNat).val.toNat = b.toNat := toNat_ofByte b
  simp [String.utf8EncodeChar, hn, show b.toNat ≤ 127 by omega]

theorem toNat_lt_of_not_always {b : UInt8} (h : always (Char.ofNat b.toNat) = false) :
    b.toNat < 128 := by
  simp only [always, isAscii, toNat_ofByte, Bool.or_eq_false_iff, Bool.not_eq_false',
    decide_eq_true_eq] at h
  exact h.1.1

/-- Bytes are read back as they were written, if the percent sign is escaped and so is all that
always must be. -/
theorem decode_encodeBytes_append {isEscaped : Char → Bool} (percent : isEscaped '%' = true)
    (others : ∀ c, always c = true → isEscaped c = true) (bytes : List UInt8) (rest : Text) :
    decode (encodeBytes isEscaped bytes ++ rest) = bytes ++ decode rest := by
  induction bytes with
  | nil => rfl
  | cons b bytes ih =>
    change decode ((if isEscaped (Char.ofNat b.toNat) then byte b else [Char.ofNat b.toNat]) ++
      encodeBytes isEscaped bytes ++ rest) = b :: (bytes ++ decode rest)
    rw [List.append_assoc]
    by_cases h : isEscaped (Char.ofNat b.toNat) = true
    · rw [if_pos h, decode_byte, ih]
    · have hp : Char.ofNat b.toNat ≠ '%' := fun hc => h (hc ▸ percent)
      have ha : always (Char.ofNat b.toNat) = false :=
        Bool.eq_false_iff.mpr fun hc => h (others _ hc)
      rw [if_neg h, List.singleton_append, decode_cons hp,
        utf8EncodeChar_ofByte (toNat_lt_of_not_always ha), ih, List.singleton_append]

/-- The name of a file is read back from its escapes. -/
theorem decode_fileName (name : List UInt8) (rest : Text) :
    decode (encodeBytes inFileName name ++ rest) = name ++ decode rest := by
  refine decode_encodeBytes_append rfl (fun c h => ?_) name rest
  simp [inFileName, inPath, inFragment, h]

end KrlWorkbench.Escape
