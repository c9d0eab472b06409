import PropProver.Text.Blank

/-!
# Integers in writing

An integer is read from decimal digits of any script, with an optional sign before them, single
underscores between them and white space around the whole; the separators of records do not
count as white space here. Nothing with more than `digitLimit` digits is read, zeros at the front
included.
-/

namespace PropProver.Text

/-- The zeros of the scripts; the other nine digits follow each in order. -/
def zeros : List Nat := [
    0x30, 0x660, 0x6F0, 0x7C0, 0x966, 0x9E6, 0xA66, 0xAE6, 0xB66, 0xBE6, 0xC66, 0xCE6, 0xD66,
    0xDE6, 0xE50, 0xED0, 0xF20, 0x1040, 0x1090, 0x17E0, 0x1810, 0x1946, 0x19D0, 0x1A80, 0x1A90,
    0x1B50, 0x1BB0, 0x1C40, 0x1C50, 0xA620, 0xA8D0, 0xA900, 0xA9D0, 0xA9F0, 0xAA50, 0xABF0,
    0xFF10, 0x104A0, 0x10D30, 0x11066, 0x110F0, 0x11136, 0x111D0, 0x112F0, 0x11450, 0x114D0,
    0x11650, 0x116C0, 0x11730, 0x118E0, 0x11950, 0x11C50, 0x11D50, 0x11DA0, 0x16A60, 0x16AC0,
    0x16B50, 0x1D7CE, 0x1D7D8, 0x1D7E2, 0x1D7EC, 0x1D7F6, 0x1E140, 0x1E2F0, 0x1E950, 0x1FBF0]

/-- The greatest number of digits that are read as one integer. -/
def digitLimit : Nat := 4300

/-- The message for an integer with too many digits. -/
def excessMessage (digits : Nat) : String :=
  "Exceeds the limit (" ++ toString digitLimit ++ " digits) for integer string conversion: " ++
    "value has " ++ toString digits ++
    " digits; use sys.set_int_max_str_digits() to increase the limit"

/-- The value of a decimal digit. -/
def digit? (c : Char) : Option Nat :=
  (zeros.find? fun z => decide (z ≤ c.toNat ∧ c.toNat < z + 10)).map (c.toNat - ·)

/-- The value of a run of digits, given the value of the digits before it. -/
def digitsFrom (value : Nat) : List Char → Option Nat
  | [] => some value
  | '_' :: c :: cs => do digitsFrom (10 * value + (← digit? c)) cs
  | c :: cs => do digitsFrom (10 * value + (← digit? c)) cs

/-- The value of digits with single underscores between them. -/
def natural? (cs : List Char) : Option Nat :=
  if digitLimit < cs.countP (· != '_') then none
  else
    match cs with
    | [] => none
    | c :: cs => do digitsFrom (← digit? c) cs

/-- The character may stand around an integer. -/
def isMargin (c : Char) : Bool := isBlank c && !decide (0x1C ≤ c.toNat ∧ c.toNat ≤ 0x1F)

/-- The integer that a text writes. -/
def integer? (s : String) : Option Int :=
  match trim isMargin s.toList with
  | '-' :: cs => (natural? cs).map fun n => -(n : Int)
  | '+' :: cs => (natural? cs).map Int.ofNat
  | cs => (natural? cs).map Int.ofNat

end PropProver.Text
