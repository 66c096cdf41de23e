/-! Cutting a text at separators, joining parts, and reading a text line by line. -/
namespace SourceAtlas.Text

/-- The parts of a text between the occurrences of a separator, never none. -/
def splitAt (separator : Char) : List Char → List (List Char)
  | [] => [[]]
  | c :: rest =>
    if c = separator then [] :: splitAt separator rest
    else
      match splitAt separator rest with
      | [] => [[c]]
      | part :: parts => (c :: part) :: parts

/-- Joins texts with a separator between neighbours. -/
def joinWith (separator : List Char) : List (List Char) → List Char
  | [] => []
  | [part] => part
  | part :: parts => part ++ separator ++ joinWith separator parts

/-- A text without a given start, if it has that start. -/
def dropPrefix? : List Char → List Char → Option (List Char)
  | [], text => some text
  | _ :: _, [] => none
  | p :: ps, c :: rest => if p = c then dropPrefix? ps rest else none

/-- A line without the carriage return at its end. -/
def dropReturn (line : List Char) : List Char :=
  if line.getLast? = some '\r' then line.dropLast else line

/-- The lines of a text, without their line breaks. A line break at the end of the text starts no
further line, and a carriage return before a line break belongs to it. -/
def lines (text : List Char) : List (List Char) :=
  let parts := splitAt '\n' text
  parts.dropLast.map dropReturn ++ (parts.getLast?.toList.filter (· ≠ []))

end SourceAtlas.Text
