import SourceAtlas.Syntax.CommentRemoval
import SourceAtlas.Text.Parts
import SourceAtlas.Text.Word

/-! Documentation of a declaration: the descriptions of the documentation blocks in the run of comments
directly before it. A description ends at its first tag. -/
namespace SourceAtlas.Syntax

open Text

/-- Removes every copy of a block's opening at the start of a text. -/
def dropOpenings : List Char → List Char
  | '/' :: '*' :: '*' :: rest => dropOpenings rest
  | text => text

/-- Removes every copy of a block's closing at the end of a text, given and returned in reverse. -/
def dropClosings : List Char → List Char
  | '/' :: '*' :: rest => dropClosings rest
  | text => text

/-- A line of a block without its margin: blanks, one star, one space. -/
def dropMargin (line : List Char) : List Char :=
  let line := trim line
  let line := (dropPrefix? ['*'] line).getD line
  trimEnd ((dropPrefix? [' '] line).getD line)

/-- A tag is an at sign followed by a word character. -/
def startsTag : List Char → Bool
  | '@' :: c :: _ => isWord c
  | _ => false

/-- Removes the empty lines at both ends. -/
def dropEmptyEnds (parts : List (List Char)) : List (List Char) :=
  ((parts.dropWhile (· == [])).reverse.dropWhile (· == [])).reverse

def description (block : List Char) : List Char :=
  let inner := (dropClosings (dropOpenings block).reverse).reverse
  let described := ((lines inner).map dropMargin).takeWhile fun line => !startsTag line
  joinWith ['\n'] (dropEmptyEnds described)

/-- A documentation block opens with two stars and does not close with the second one. -/
def isDocumentation (comment : List Char) : Bool :=
  (dropPrefix? ['/', '*', '*'] comment).isSome && (dropPrefix? ['/', '*', '*', '/'] comment).isNone

/-- The description in a comment, if it is a documentation block and says anything. -/
def description? (comment : List Char) : Option (List Char) :=
  if isDocumentation comment ∧ description comment ≠ [] then some (description comment) else none

/-- Documentation stands before a declaration, or before the export statement around it. -/
def Place.anchor (place : Place) : Place :=
  match place.parent? with
  | some parent => if parent.node.kind = "export_statement" then parent else place
  | none => place

/-- The run of comments that ends directly before a place, in source order. -/
def Place.commentsBefore (place : Place) : List Node := (place.earlier.takeWhile isComment).reverse

def SourceFile.documentation (file : SourceFile) (place : Place) : String :=
  let blocks := place.anchor.commentsBefore.filterMap fun comment =>
    description? (file.text comment).toList
  String.ofList (joinWith ['\n'] blocks)

end SourceAtlas.Syntax
