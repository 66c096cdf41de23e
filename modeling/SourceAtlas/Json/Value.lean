import SourceAtlas.Text.Hex

/-! JSON values and their two text forms: on one line, and with one item per line, indented by two
spaces. -/
namespace SourceAtlas

inductive Json
  | null
  | bool (value : Bool)
  | number (value : Nat)
  | text (content : String)
  | array (items : List Json)
  | object (members : List (String × Json))
  deriving Repr

namespace Json

/-- A character within a string. Quotes, backslashes and controls are escaped. -/
def escapeChar (c : Char) : List Char :=
  if c = '"' then ['\\', '"']
  else if c = '\\' then ['\\', '\\']
  else if c = '\x08' then ['\\', 'b']
  else if c = '\x0c' then ['\\', 'f']
  else if c = '\n' then ['\\', 'n']
  else if c = '\r' then ['\\', 'r']
  else if c = '\t' then ['\\', 't']
  else if c.toNat < 0x20 then
    ['\\', 'u', '0', '0', Text.hexDigit (c.toNat / 16), Text.hexDigit (c.toNat % 16)]
  else [c]

def quote (content : String) : List Char := '"' :: content.toList.flatMap escapeChar ++ ['"']

/-- Writes parts with a comma after each but the last. -/
def separated : List (List Char) → List Char
  | [] => []
  | [part] => part
  | part :: parts => part ++ ',' :: separated parts

mutual

def compact : Json → List Char
  | .null => ['n', 'u', 'l', 'l']
  | .bool true => ['t', 'r', 'u', 'e']
  | .bool false => ['f', 'a', 'l', 's', 'e']
  | .number value => (toString value).toList
  | .text content => quote content
  | .array items => '[' :: separated (compactItems items) ++ [']']
  | .object members => '{' :: separated (compactMembers members) ++ ['}']

def compactItems : List Json → List (List Char)
  | [] => []
  | item :: items => item.compact :: compactItems items

def compactMembers : List (String × Json) → List (List Char)
  | [] => []
  | (key, value) :: members => (quote key ++ ':' :: value.compact) :: compactMembers members

end

def breakLine (depth : Nat) : List Char := '\n' :: List.replicate (2 * depth) ' '

/-- Writes the parts of a container on lines of their own between its brackets. -/
def spread (depth : Nat) (opening closing : Char) (parts : List (List Char)) : List Char :=
  match parts with
  | [] => [opening, closing]
  | parts =>
    opening :: separated (parts.map (breakLine (depth + 1) ++ ·)) ++ breakLine depth ++ [closing]

mutual

def pretty (depth : Nat) : Json → List Char
  | .array items => spread depth '[' ']' (prettyItems (depth + 1) items)
  | .object members => spread depth '{' '}' (prettyMembers (depth + 1) members)
  | .null => compact .null
  | .bool value => compact (.bool value)
  | .number value => compact (.number value)
  | .text content => compact (.text content)

def prettyItems (depth : Nat) : List Json → List (List Char)
  | [] => []
  | item :: items => item.pretty depth :: prettyItems depth items

def prettyMembers (depth : Nat) : List (String × Json) → List (List Char)
  | [] => []
  | (key, value) :: members =>
    (quote key ++ ':' :: ' ' :: value.pretty depth) :: prettyMembers depth members

end

/-- A text or, if it is missing, no member at all. -/
def optionalMember (key : String) (content : Option String) : List (String × Json) :=
  content.toList.map fun content => (key, .text content)

def ofTexts (texts : List String) : Json := .array (texts.map .text)

end Json

end SourceAtlas
