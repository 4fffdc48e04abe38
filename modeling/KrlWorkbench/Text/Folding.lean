import KrlWorkbench.Text.CodeTable

/-!
# Letters that differ only in case

Simple case folding sends each character to one representative of the characters that differ
from it only in case.  For ASCII letters that is the lower case letter; two characters outside
ASCII fold to an ASCII letter, the long s and the Kelvin sign.
-/

namespace KrlWorkbench.Text

/-- The code points `first`, `first + step`, ... up to `last` fold to themselves plus `shift`. -/
structure FoldingRow where
  first : Nat
  last : Nat
  step : Nat
  shift : Int

/-- Folding outside ASCII, in increasing order of the code points and four numbers a row: how far
the first code point is behind the last one of the row before, how far the last one is behind the
first, the step, and the shift.  The shift is doubled, and a shift back is an odd number. -/
def foldingSteps : List Nat := [
  0x10321016BA11221016BC10222216CC10218AF10222413E9102225C3221E32244225E4A18816218812E1B389E102ED,
  0x10221036EC10221016EC10222416DC1026DA1016CE10421016CA1016CE1026BE1016BA10221016AE1016AC1012BE,
  0x248B102224E11DF101389102222141032228322281410221014102210141018210421016EE10222216EA11221016EC,
  0x19A12219C1073D8101921042225B3D8103EF2218129E10129A10168D10221035A9A810158D10221015A9AE10182228,
  0x10221021FF1011EF1031BF1011DB102222E25B1013D104691017B10128101D2102F188118218812821FE112288102,
  0x51CDB3CB881063CB881023CB8814D5D9A1C814D3221BE3221C13E102226C1A22486918813F12C811F148B12321011D,
  0x1BDFF1231BDFF15A72101299E8E1013898F101389EF10138A8D10138A8B11138A8F10138AB910138ABB104A8B1F1,
  0x1F11191F17191F17191F17391F17191F261C1F15191F17191F171B1F15191F171A221BE23DDFD1031EB107222AC589,
  0x291013FB1113FF111C1D1013BF1111F1153C9CD101838F1111F1153CA8D107291012DB131A3C899102291012AB111,
  0x24359F9D1011EF9B10159FDD102210691C815F3CE96C1391CEB2102C4811F5E7810748A9B10148DFD1043DAF9104DA,
  0x1B227C4221C298223A2C225C7CD9E210522219221CA15A9FD1119210321025A8FB1015A8FD10159FF91015A8EF1022,
  0x12CD8CB1022CDA8F1012CDA891012CDAAD1012CDABD1012CDA8F102222A422232CD99F10221052218129A88F102222,
  0x210392CEA891022246210421012CDB9D102222129A9DF1012CDA8D1011BF102221E13D881012CD8D91012CD9AB10,
  0x2D2BE28816A3BDB19E11219E16219E11E219E11A2BD1A814B2991A814F2B8E18813928BC2104FD8E2AFEBF119F1DFB,
  0x18C1497DAC918813F5AE8918813F5CFB1881]

/-- The rows behind the code point `n`. -/
def foldingRowsBehind (n : Nat) : List Nat → List FoldingRow
  | gap :: width :: step :: shift :: rest =>
    let first := n + gap
    let last := first + width
    let shift := if shift % 2 = 0 then Int.ofNat (shift / 2) else Int.negSucc (shift / 2)
    ⟨first, last, step, shift⟩ :: foldingRowsBehind last rest
  | _ => []

def foldingRows : Array FoldingRow :=
  (foldingRowsBehind 0 (unpacked foldingSteps)).toArray

/-- The row for `n` among those whose index is at least `lo` and below `hi`. -/
def foldingRowBetween (rows : Array FoldingRow) (n lo hi : Nat) : Option FoldingRow :=
  if lo < hi then
    let mid := (lo + hi) / 2
    let row := rows.getD mid ⟨1, 0, 1, 0⟩
    if n < row.first then foldingRowBetween rows n lo mid
    else if row.last < n then foldingRowBetween rows n (mid + 1) hi
    else if (n - row.first) % row.step == 0 then some row
    else none
  else none
termination_by hi - lo

/-- The representative of the characters that differ from `c` only in case. -/
def fold (c : Char) : Char :=
  if isAscii c then lowerAscii c
  else
    match foldingRowBetween foldingRows c.toNat 0 foldingRows.size with
    | some row => Char.ofNat ((c.toNat : Int) + row.shift).toNat
    | none => c

def sameFold (a b : Char) : Bool :=
  a == b || fold a == fold b

end KrlWorkbench.Text
