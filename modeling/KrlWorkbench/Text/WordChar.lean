import KrlWorkbench.Text.CodeTable

/-!
# Word characters and digits

A word character is an alphabetic character, a mark, a decimal digit, a connector such as the
underscore, or a join control.  A word boundary is a place with a word character on exactly one
side.  ASCII is decided by the identifier classes, the rest by the tables.
-/

namespace KrlWorkbench.Text

/-- Word characters outside ASCII. -/
def wordRanges : Array (Nat × Nat) := rangeTable [
  0x51B3D443B18112121115D18596124E12DD129B11AB12C11131161142211ED29111751E1C479A13F12F51411A12DA,
  0x2512411842221924311712E2221812B11A2289119B18613851B43C2A5E212146E1E1CD27B28122B11A21811CE419A,
  0x25121712E222181317191A241F1231311A25121712E13119131B28711471332245112212121712E22461321111A1C,
  0x2F1311814281A24212312741311922812F1311D281A1E16124133541C33323211123413361228111A2512437322219,
  0x1511124F1A11F57A1D221A618111641372111913832A13161A1A2574551316B1311D1C311A24126274131192511A1,
  0x241492415924111724159D15B215114E219E619A791194C12A12C44C11A4111111B1A622F148421A17111522F11138,
  0x55B71B961B13491A224131AC1C21311D1C2C1B2E192E71B319B53A129219DC3621AE2828483218B2417911F241117,
  0x4F1328325B51B26931A18781C1EC1C19291A319D693F1811D1A61B23D17F43C4E1A63A45C1B52581A1C41C13F1A18E,
  0x421B14111111653111A214129496B1D2811D13C12B26921F71351D46243713311716D23F1111111182624E26218AE5,
  0x15B5411BA132221AE452511F3937AD15F48171717171717171719381F1778215114E1C1963CD3CAE6C1CDD59291455,
  0x133861A1A18E1C6C2B146E2D181112218B21CF2194D1EB11A16B2C3C349D25E18B5BA9D1881CF881888286848291BE,
  0x5DE28C8C6942F1C2DECC61A2211FB61E15B171719626261A5228233819932F61A21E196F13F61B1E18933D1C4C2691,
  0x11C4B326262631B91B3A1143A71A2B28F15483382328282841C586E21882A5DB491DC1212111511D11C551C74E1DA2,
  0x121711F11B1C6C185844C44C61A22BE5A511844C23E55B53E1D483F11F6933D28A12986D18D1FB4A1E21F1212B13A,
  0x3D131185214188267818E3A1A2E1A212B1893F192F1A2F213215C112618D1915A1638181A2E194EF1C6C321711F11B,
  0x5A2E3F491811A496F32823215A3FA2F1534E61A18581D6B1D6B6F1991DE2A1D2B1A2E1A6E393E1184B3D33D481432,
  0x712E222181461A57B71A11F1411177E464D12A4B111D14418D19124C18441A16D61A7391D177C19283F18F192F3B2D,
  0x794E1A1B131894A62F1926E2CE1A181118E3E441A519B3D21D1814112111A14E112111A1B537275161232221A15121,
  0x61A1F4938F1992A1319A181187F3B211825E21818E1A1C192213E12118212182D19A1CD7B2F9761A41F23B3C2C61A7,
  0x291DF1CE1EBA19F11AD1B1D5359129192F4EE1A761214D121661A1819121135C12171991E12E23E381A1F1915D119,
  0x38E1A35D6E82B52D191A1C4196F1B523E61A119F61A13F718F93B8E7A1DAF9198F57EBB1A2E2828E81F1C9599C38C,
  0x189A9231A71931D51DB4C8C69C1841E1233D11F4CB12171429BCF1A592BAE181BFF81E21B21218829779419B288188,
  0x3913F13913925AC1731151413C17118241189171111C14222122118F11AD6FB32AC43E72181863518BE2F25E188E1A,
  0x7A293F589141A21E35D1E81497E551217229173AD663F29A81F152E11E1186A46F18886A21813913F13913F13913F1,
  0x141714211211111111112112131111114161111411A11211213B142ACE1A419C5971B38D11F1214177CD5B3AE5A7AE,
  0x519D9B2FCA18BE4ECA19DE1F1ECE91E1BA8A23BE6188FA481ABBC8288E1A59CE3A63A63A19EC29151352911A1114,
  0x3E82DDEDA8189C8]

def isWordChar (c : Char) : Bool :=
  if isAscii c then isNameChar c else inRanges wordRanges c.toNat

/-- A word character on exactly one side. -/
def isWordBoundary (before after : Option Char) : Bool :=
  before.any isWordChar != after.any isWordChar

@[simp] theorem isWordChar_of_isAscii {c : Char} (h : isAscii c = true) :
    isWordChar c = isNameChar c := by
  simp [isWordChar, h]

/-- Decimal digits outside ASCII, ten of each script. -/
def digitRanges : Array (Nat × Nat) := rangeTable [
  0x1A18E1A4AE1A18E1A1EE1A1C81A1EE1A1EE1A1EE1A1EE1A1EE1A1EE1A1EE1A1EE1A1EE1A6BC1A38E1A28E1A39C8,
  0x2E8E1A59CAE1A6AE1A1AE1A2E1A38E1A4E1A1ACE1A18CF8E1A61A28E1A1AE1A2EE1A61A2CE1A2881A4DC1A4E1A3D8E,
  0x1A3EE1A1AE1A1AAE1A1CE1A6CE1A19C1A01A61A1CE1A5EE1A1EE1A5AE1A4AE1A2A81A7C1A2881A1CBC1A61A4A8E1A,
  0x1A1DAD1A3EF1A7EE1A6CE1A4D881A01A01A01A01A5BAC1A5FDEE1A18AE1A28E1A1AE1A4CCE1A48FAE1A6CE1A18E,
  0x1A19AAE]

/-- A decimal digit of any script. -/
def isDecimalDigit (c : Char) : Bool :=
  if isAscii c then isDigit c else inRanges digitRanges c.toNat

end KrlWorkbench.Text
