import SourceAtlas.Text.Blank

/-! JSON with comments and commas before closing brackets, reduced to plain JSON. Neither is looked for
within strings. -/
namespace SourceAtlas.Json

inductive Region
  | plain
  | text
  | lineComment
  | blockComment

/-- Removes comments. A line comment leaves its line break, a block comment leaves nothing, and a
comment without an end takes all that follows. -/
def dropComments : Region → List Char → List Char
  | _, [] => []
  | .plain, '"' :: rest => '"' :: dropComments .text rest
  | .plain, '/' :: '/' :: rest => dropComments .lineComment rest
  | .plain, '/' :: '*' :: rest => dropComments .blockComment rest
  | .plain, c :: rest => c :: dropComments .plain rest
  | .text, '\\' :: c :: rest => '\\' :: c :: dropComments .text rest
  | .text, '"' :: rest => '"' :: dropComments .plain rest
  | .text, c :: rest => c :: dropComments .text rest
  | .lineComment, '\n' :: rest => '\n' :: dropComments .plain rest
  | .lineComment, _ :: rest => dropComments .lineComment rest
  | .blockComment, '*' :: '/' :: rest => dropComments .plain rest
  | .blockComment, _ :: rest => dropComments .blockComment rest

/-- Whether the next character that is no blank closes a container. -/
def closesNext (text : List Char) : Bool :=
  match text.dropWhile Text.isBlank with
  | ']' :: _ | '}' :: _ => true
  | _ => false

/-- Removes commas before closing brackets from a text without comments. -/
def dropTrailingCommas : (inText : Bool) → List Char → List Char
  | _, [] => []
  | false, '"' :: rest => '"' :: dropTrailingCommas true rest
  | false, ',' :: rest =>
    if closesNext rest then dropTrailingCommas false rest else ',' :: dropTrailingCommas false rest
  | false, c :: rest => c :: dropTrailingCommas false rest
  | true, '\\' :: c :: rest => '\\' :: c :: dropTrailingCommas true rest
  | true, '"' :: rest => '"' :: dropTrailingCommas false rest
  | true, c :: rest => c :: dropTrailingCommas true rest

def plainForm (text : List Char) : List Char := dropTrailingCommas false (dropComments .plain text)

end SourceAtlas.Json
