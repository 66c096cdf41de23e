import SourceAtlas.Declaration.Reader

/-! The import statements of a file. -/
namespace SourceAtlas

open Syntax

/-- An import statement that is not the assignment of a required module. -/
def isImport (place : Place) : Bool :=
  place.node.kind == "import_statement" &&
    !place.namedChildren.any fun child => child.node.kind == "import_require_clause"

def terminated (statement : String) : String :=
  if statement.toList.getLast? = some ';' then statement else statement.push ';'

/-- The texts of the imports of a file, in source order. -/
def Reader.imports (reader : Reader) (file : SourceFile) : Except Fault (List String) :=
  (file.root.namedChildren.filter isImport).mapM fun place => do
    return terminated (← reader.print .kept file place)

end SourceAtlas
