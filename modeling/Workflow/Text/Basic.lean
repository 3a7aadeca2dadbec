/-! Small operations on texts: white space, substrings, separators and whole numbers. -/

namespace Workflow.Text

/-- White space of Unicode. -/
def isSpace (c : Char) : Bool :=
  let n := c.toNat
  (9 ≤ n && n ≤ 13) || n == 32 || n == 0x85 || n == 0xA0 || n == 0x1680 || (0x2000 ≤ n && n ≤ 0x200A) ||
    n == 0x2028 || n == 0x2029 || n == 0x202F || n == 0x205F || n == 0x3000

def trimChars (cs : List Char) : List Char :=
  ((cs.dropWhile isSpace).reverse.dropWhile isSpace).reverse

/-- A text without white space at its ends. -/
def trim (text : String) : String := String.ofList (trimChars text.toList)

/-- A text without any of one character at its end. -/
def trimEnd (c : Char) (text : String) : String :=
  String.ofList (text.toList.reverse.dropWhile (· == c)).reverse

/-- A text without any of one character at its start. -/
def trimStart (c : Char) (text : String) : String := String.ofList (text.toList.dropWhile (· == c))

/-- Lower case of the ASCII letters alone. -/
def asciiLower (text : String) : String := String.ofList (text.toList.map Char.toLower)

/-- Whether the needle occurs somewhere in the text. -/
def occursIn (needle : List Char) : List Char → Bool
  | [] => needle.isEmpty
  | c :: rest => needle.isPrefixOf (c :: rest) || occursIn needle rest

def contains (text needle : String) : Bool := occursIn needle.toList text.toList

/-- Whether the text begins with the given one; then what follows it. -/
def after? (start text : String) : Option String :=
  if start.toList.isPrefixOf text.toList then some (String.ofList (text.toList.drop start.toList.length)) else none

/-- The pieces between the separators; a text without any is its own single piece. -/
def splitOn (sep : Char) : List Char → List (List Char)
  | [] => [[]]
  | c :: rest =>
    match splitOn sep rest with
    | [] => [[c]]
    | piece :: pieces => if c = sep then [] :: piece :: pieces else (c :: piece) :: pieces

/-- The largest number of a 64-bit machine word. -/
def wordMax : Nat := Nat.pow 2 64 - 1

def digitsValue (cs : List Char) : Nat := Nat.ofDigitChars 10 cs 0

/-- A machine word in ASCII digits. -/
def wordOfDigits? (cs : List Char) : Option Nat :=
  if cs.isEmpty || !cs.all Char.isDigit then none
  else if digitsValue cs ≤ wordMax then some (digitsValue cs) else none

/-- A machine word with an optional plus sign. -/
def word? : List Char → Option Nat
  | '+' :: rest => wordOfDigits? rest
  | cs => wordOfDigits? cs

/-- The leading digits of a text and what follows them. -/
def splitDigits (cs : List Char) : List Char × List Char := (cs.takeWhile Char.isDigit, cs.dropWhile Char.isDigit)

/-- A run of at least one digit. -/
def readDigits (cs : List Char) : Option (List Char × List Char) :=
  match splitDigits cs with
  | ([], _) => none
  | found => some found

/-- The value of a digit in any base up to sixteen. -/
def digitValue? (c : Char) : Option Nat :=
  if '0' ≤ c ∧ c ≤ '9' then some (c.toNat - '0'.toNat)
  else if 'a' ≤ c ∧ c ≤ 'f' then some (c.toNat - 'a'.toNat + 10)
  else if 'A' ≤ c ∧ c ≤ 'F' then some (c.toNat - 'A'.toNat + 10)
  else none

/-- A number written in a base up to sixteen with at least one digit. -/
def numeral? (base : Nat) (cs : List Char) : Option Nat :=
  if cs.isEmpty then none
  else cs.foldlM (fun n c => ((digitValue? c).filter (· < base)).map fun d => n * base + d) 0

/-- Decimal digits of a number. -/
def ofNat (n : Nat) : String := String.ofList (Nat.toDigits 10 n)

def join (sep : String) (texts : List String) : String := sep.intercalate texts

end Workflow.Text
