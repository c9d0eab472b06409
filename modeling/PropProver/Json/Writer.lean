import PropProver.Text.Codes

/-!
# Writing JSON

What is written is a `Wire`, a JSON value whose texts may hold halves of characters. Texts are
written in ASCII only. With a margin, every item and every field stands on a line of its own, behind
one margin for each container around it; without one, all is on one line.
-/

namespace PropProver

/-- A JSON value as it is written. -/
inductive Wire where
  /-- The null value. -/
  | null
  /-- A truth value. -/
  | bool (b : Bool)
  /-- A whole number. -/
  | int (n : Int)
  /-- A text. -/
  | str (s : Codes)
  /-- A list. -/
  | arr (items : List Wire)
  /-- An object. -/
  | obj (fields : List (Codes × Wire))
  deriving Repr

namespace Json

/-- A code in four hexadecimal digits. -/
def unit (n : Nat) : List Char := '\\' :: 'u' :: Text.hex 4 n

/-- A character in a text: escaped if it is a quote, a backslash or outside printable ASCII, by a
pair of codes if its own code has more than four digits. -/
def escape (c : Char) : List Char :=
  if c = '"' then ['\\', '"']
  else if c = '\\' then ['\\', '\\']
  else if c = '\n' then ['\\', 'n']
  else if c = '\r' then ['\\', 'r']
  else if c = '\t' then ['\\', 't']
  else if c = '\x08' then ['\\', 'b']
  else if c = '\x0c' then ['\\', 'f']
  else if 0x20 ≤ c.toNat ∧ c.toNat < 0x7F then [c]
  else if c.toNat < 0x10000 then unit c.toNat
  else
    let n := c.toNat - 0x10000
    unit (0xD800 + n / 0x400) ++ unit (0xDC00 + n % 0x400)

/-- A code in a text: a half is given by its number. -/
def escapeCode : Code → List Char
  | .char c => escape c
  | c => unit c.number

/-- A text between quotes. -/
def quote (s : Codes) : List Char := '"' :: (s.flatMap escapeCode ++ ['"'])

/-- How containers are laid out: on one line, or with a margin for each level. -/
abbrev Layout := Option String

/-- The line break before an item at a depth. -/
def Layout.lineBreak (layout : Layout) (depth : Nat) : List Char :=
  match layout with
  | none => []
  | some margin => '\n' :: (List.replicate depth margin.toList).flatten

/-- What stands between two items at a depth. -/
def Layout.comma (layout : Layout) (depth : Nat) : List Char :=
  match layout with
  | none => [',', ' ']
  | some _ => ',' :: layout.lineBreak depth

mutual

/-- The characters of a value inside a number of containers. -/
def chars (layout : Layout) (depth : Nat) : Wire → List Char
  | .null => "null".toList
  | .bool true => "true".toList
  | .bool false => "false".toList
  | .int n => (toString n).toList
  | .str s => quote s
  | .arr [] => ['[', ']']
  | .arr (x :: xs) =>
    '[' :: layout.lineBreak (depth + 1) ++ chars layout (depth + 1) x ++
      itemChars layout (depth + 1) xs ++ layout.lineBreak depth ++ [']']
  | .obj [] => ['{', '}']
  | .obj ((k, x) :: fs) =>
    '{' :: layout.lineBreak (depth + 1) ++ quote k ++ [':', ' '] ++ chars layout (depth + 1) x ++
      fieldChars layout (depth + 1) fs ++ layout.lineBreak depth ++ ['}']

/-- The characters of the items after the first. -/
def itemChars (layout : Layout) (depth : Nat) : List Wire → List Char
  | [] => []
  | x :: xs => layout.comma depth ++ chars layout depth x ++ itemChars layout depth xs

/-- The characters of the fields after the first. -/
def fieldChars (layout : Layout) (depth : Nat) : List (Codes × Wire) → List Char
  | [] => []
  | (k, x) :: fs =>
    layout.comma depth ++ quote k ++ [':', ' '] ++ chars layout depth x ++
      fieldChars layout depth fs

end

end Json

/-- A value in writing. -/
def Wire.text (layout : Json.Layout) (x : Wire) : String := String.ofList (Json.chars layout 0 x)

end PropProver
