import SourceAtlas.Syntax.CommentRemoval

/-! Types as one line of text: the text of an annotation, and the type that an initialiser shows. -/
namespace SourceAtlas.Syntax

def anyType : String := "any"

def voidType : String := "void"

def SourceFile.lineText (file : SourceFile) (node : Node) : String :=
  String.ofList (Text.oneLine (file.text node).toList)

def wrapsType (kind : String) : Bool :=
  kind == "type_annotation" || kind == "asserts_annotation" || kind == "type_predicate_annotation"

/-- The node of the type itself: what an annotation carries, and any other node unchanged. -/
def Place.typeNode? (place : Place) : Option Node :=
  if wrapsType place.node.kind then place.namedChildren.head?.map (·.node) else some place.node

/-- The text of a type or annotation, unless it is empty. -/
def SourceFile.typeText? (file : SourceFile) (place : Place) : Option String :=
  (place.typeNode?.map file.lineText).filter (· ≠ "")

/-- The type of a literal, by its kind. -/
def literalType? : String → Option String
  | "string" | "template_string" => some "string"
  | "number" => some "number"
  | "true" | "false" => some "boolean"
  | "null" => some "null"
  | "undefined" => some "undefined"
  | "regex" => some "RegExp"
  | _ => none

def operatorType? : String → Option String
  | "!" => some "boolean"
  | "-" | "+" | "~" => some "number"
  | "typeof" => some "string"
  | "void" => some "undefined"
  | _ => none

/-- The type of an array with elements of the given types, each type named once. -/
def arrayType (elements : List String) : String :=
  match elements.eraseDups with
  | [] => anyType ++ "[]"
  | [element] => element ++ "[]"
  | elements => "(" ++ " | ".intercalate elements ++ ")[]"

def SourceFile.constructedType? (file : SourceFile) (place : Place) : Option String :=
  (place.child? .constructor).map fun constructor =>
    file.text constructor.node ++
      match place.child? .typeArguments with
      | some arguments => file.lineText arguments.node
      | none => ""

/-- Where the type of an expression comes from: it is settled, or it is that of the first named part,
or it is made of those of all elements. -/
inductive ExpressionForm
  | settled (type : Option String)
  | wrapping
  | array

/-- Parentheses, checks and constant casts wrap an expression; any other cast gives its type. -/
def SourceFile.expressionForm (file : SourceFile) (place : Place) : ExpressionForm :=
  match literalType? place.node.kind with
  | some type => .settled (some type)
  | none =>
    match place.node.kind with
    | "parenthesized_expression" | "satisfies_expression" => .wrapping
    | "as_expression" =>
      match place.children.getLast? with
      | none => .settled none
      | some last =>
        if last.node.kind = "const" then .wrapping else .settled (file.typeText? last)
    | "new_expression" => .settled (file.constructedType? place)
    | "unary_expression" =>
      .settled ((place.child? .operator).bind fun operator => operatorType? (file.text operator.node))
    | "array" => .array
    | _ => .settled none

/-- The type that an expression shows. An array needs a type for every element. -/
def SourceFile.expressionType? (file : SourceFile) (place : Place) : Option String :=
  match file.expressionForm place with
  | .settled type => type
  | .wrapping =>
    match place.namedChildren.attach.head? with
    | none => none
    | some inner => file.expressionType? inner.1
  | .array =>
    let elements := place.namedChildren.attach.filter fun element => !isComment element.1.node
    (elements.mapM fun element => file.expressionType? element.1).map arrayType
termination_by sizeOf place.node
decreasing_by
  · exact Place.sizeOf_lt_of_mem_namedChildren inner.2
  · exact Place.sizeOf_lt_of_mem_namedChildren element.2

/-- The type of a declaration without an annotation. -/
def SourceFile.inferredType? (file : SourceFile) (place : Place) : Option String :=
  match place.child? .value with
  | some value => file.expressionType? value
  | none => some anyType

end SourceAtlas.Syntax
