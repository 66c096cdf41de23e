import SourceAtlas.Atlas
import SourceAtlas.Path

/-! One line about an atlas for people, with or without terminal colours. -/
namespace SourceAtlas.Report

def counted (count : Nat) (singular plural : String) : String :=
  toString count ++ " " ++ if count = 1 then singular else plural

def counts (totals : Totals) : String :=
  ", ".intercalate [counted totals.modules "module" "modules",
    counted totals.classes "class" "classes", counted totals.functions "function" "functions",
    counted totals.interfaces "interface" "interfaces", counted totals.enums "enum" "enums"]

def reset : List Char := ['\x1b', '[', '0', 'm']

/-- Styles a text. Where the text itself ends all styles, the style starts again. -/
def restyle (style : List Char) : List Char → List Char
  | '\x1b' :: '[' :: '0' :: 'm' :: rest => reset ++ style ++ restyle style rest
  | c :: rest => c :: restyle style rest
  | [] => []

/-- Puts a text between the start of a style, given by its codes, and its end. -/
def styled (colored : Bool) (codes : String) (text : String) : String :=
  if colored then
    let style := ('\x1b' :: '[' :: codes.toList) ++ ['m']
    String.ofList (style ++ restyle style text.toList ++ reset)
  else text

def summary (colored : Bool) (atlas : Atlas) (output : Path) : String :=
  "  " ++ styled colored "1;36" "codemap" ++ " " ++ styled colored "1" atlas.projectName ++ " " ++
    counts atlas.totals ++ "  " ++ styled colored "2" "→" ++ " " ++
    styled colored "34" output.text ++ "\n"

end SourceAtlas.Report
