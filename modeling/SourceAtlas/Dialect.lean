import SourceAtlas.Path

/-! The two dialects of source files. -/
namespace SourceAtlas

inductive Dialect
  | typeScript
  | tsx
  deriving DecidableEq, Repr

namespace Dialect

def ofExtension? : String → Option Dialect
  | "ts" | "mts" | "cts" => some typeScript
  | "tsx" | "js" | "jsx" | "mjs" | "cjs" => some tsx
  | _ => none

def ofPath? (path : Path) : Option Dialect := path.extension?.bind ofExtension?

/-- Files of no known extension are read as plain TypeScript. -/
def ofPath (path : Path) : Dialect := (ofPath? path).getD typeScript

end Dialect

end SourceAtlas
