import PropProver.Text.Quoted
import PropProver.Text.Blank

/-!
# Files

What the command line needs of files: why one cannot be read, and the formulas that a text lists.
-/

namespace PropProver

/-- Why the system refuses a file. -/
structure FileFault where
  /-- The number of the fault. -/
  number : Nat
  /-- The fault in words. -/
  reason : String
  deriving DecidableEq, Repr

namespace FileFault

/-- The fault in writing. -/
def text (f : FileFault) : String := "[Errno " ++ toString f.number ++ "] " ++ f.reason

/-- The message for a file that is refused. -/
def message (path : String) (f : FileFault) : String := f.text ++ ": " ++ Text.quoted path

/-- There is no such file. -/
def notFound : FileFault := ⟨2, "No such file or directory"⟩

/-- The file may not be read. -/
def denied : FileFault := ⟨13, "Permission denied"⟩

/-- Part of the path is no directory. -/
def notDirectory : FileFault := ⟨20, "Not a directory"⟩

/-- The path leads to a directory. -/
def isDirectory : FileFault := ⟨21, "Is a directory"⟩

/-- A name in the path is too long. -/
def nameTooLong : FileFault := ⟨36, "File name too long"⟩

/-- The numbers of the faults that say that there is nothing at a path: besides the usual ones, a
handle that is closed and a loop of links. -/
def absences : List Nat := [notFound.number, notDirectory.number, 9, 40]

/-- There is nothing at the path. -/
def isAbsence (f : FileFault) : Bool := f.number ∈ absences

end FileFault

/-- Why there is no text in a file. -/
inductive ReadFault where
  /-- The system refuses the file. -/
  | system (f : FileFault)
  /-- The content is not in the encoding of texts. -/
  | encoding (message : String)
  deriving DecidableEq, Repr

namespace Text

/-- The lines of a text. A line ends with a line feed, a carriage return or both in this order. -/
def lines : List Char → List (List Char)
  | [] => [[]]
  | '\r' :: '\n' :: cs => [] :: lines cs
  | '\r' :: cs => [] :: lines cs
  | '\n' :: cs => [] :: lines cs
  | c :: cs =>
    match lines cs with
    | l :: ls => (c :: l) :: ls
    | [] => [[c]]

/-- The formulas of a text, one on a line, without the white space around them. Empty lines and
lines that start with a number sign are left out. -/
def formulas (text : String) : List String :=
  (((lines text.toList).map (trim isBlank)).filter fun l => l ≠ [] ∧ l.head? ≠ some '#').map
    String.ofList

end Text

end PropProver
