import SourceAtlas.Declaration.Reader
import SourceAtlas.Proofs.ArrayUnion
import SourceAtlas.Proofs.CommentedTypes
import SourceAtlas.Proofs.FirstFault

/-! Values of initialisers that are made of literals, and the types that values have. A BigInt is shown as a
number; apart from that an initialiser evaluates to a value of the type that is shown for it. -/
namespace SourceAtlas.Syntax

open Text

-- Values

/-- What literals stand for, and how operators act on it. Nothing is assumed of either. -/
structure Arithmetic (Number : Type) where
  text : String → String
  number : String → Number
  bigInt : String → Int
  ofBigInt : Int → Number
  negate : Number → Number
  complement : Number → Number
  isNothing : Number → Bool

/-- A value of a literal. Elements of an array that are left out are not defined, so an array is no more than
the others. -/
inductive Value (Number : Type)
  | text (content : String)
  | number (amount : Number)
  | bigInt (amount : Int)
  | logical (truth : Bool)
  | null
  | undefined
  | pattern (source : String)
  | array (elements : List (Value Number))

namespace Value

variable {Number : Type} (arithmetic : Arithmetic Number)

def isTruthy : Value Number → Bool
  | .text content => content ≠ ""
  | .number amount => !arithmetic.isNothing amount
  | .bigInt amount => amount ≠ 0
  | .logical truth => truth
  | .null | .undefined => false
  | .pattern _ | .array _ => true

/-- What `typeof` says of a value. -/
def sort : Value Number → String
  | .text _ => "string"
  | .number _ => "number"
  | .bigInt _ => "bigint"
  | .logical _ => "boolean"
  | .undefined => "undefined"
  | .null | .pattern _ | .array _ => "object"

/-- A value with its BigInts converted to numbers. -/
def toNumbers : Value Number → Value Number
  | .bigInt amount => .number (arithmetic.ofBigInt amount)
  | .array elements => .array (elements.map toNumbers)
  | value => value

def bigInts : Value Number → List Int
  | .bigInt amount => [amount]
  | .array elements => elements.flatMap bigInts
  | _ => []

theorem toNumbers_of_exact : ∀ value : Value Number, value.bigInts = [] → value.toNumbers arithmetic = value
  | .text _, _ | .number _, _ | .logical _, _ | .null, _ | .undefined, _ | .pattern _, _ => by
    simp [toNumbers]
  | .bigInt _, exact => by simp [bigInts] at exact
  | .array elements, exact => by
    have each : ∀ element ∈ elements, element.bigInts = [] := by simpa [bigInts] using exact
    have same : elements.map (toNumbers arithmetic) = elements.map id := by
      apply List.map_congr_left
      intro element inside
      exact toNumbers_of_exact element (each element inside)
    rw [toNumbers,same,List.map_id]

end Value

/-- Values of a type, by the text of the type. -/
inductive HasType {Number : Type} : Value Number → String → Prop
  | any (value : Value Number) : HasType value anyType
  | text (content : String) : HasType (.text content) "string"
  | number (amount : Number) : HasType (.number amount) "number"
  | bigInt (amount : Int) : HasType (.bigInt amount) "bigint"
  | logical (truth : Bool) : HasType (.logical truth) "boolean"
  | null : HasType .null "null"
  | undefined : HasType .undefined "undefined"
  | pattern (source : String) : HasType (.pattern source) "RegExp"
  | member {value : Value Number} {type : String} {members : List String} (inside : type ∈ members)
    (apart : ∀ other ∈ members, Whole other.toList) (has : HasType value type) :
    HasType value ("(" ++ " | ".intercalate members ++ ")")
  | array {elements : List (Value Number)} {type : String} (each : ∀ element ∈ elements, HasType element type) :
    HasType (.array elements) (type ++ "[]")

section Typing

variable {Number : Type}

theorem union_ne {members : List String} {type : String} (other : type.toList.head? ≠ some '(') :
    type ≠ "(" ++ " | ".intercalate members ++ ")" := by
  rintro rfl
  apply other
  rw [toList_union]
  rfl

theorem array_ne_union {members : List String} {type : String} :
    type ++ "[]" ≠ "(" ++ " | ".intercalate members ++ ")" := by
  intro same
  have last := congrArg (fun text => text.toList.getLast?) same
  rw [toList_union,List.getLast?_concat,String.toList_append,List.getLast?_append] at last
  cases last

theorem array_ne_any {type : String} : type ++ "[]" ≠ anyType := by
  intro same
  have last := congrArg (fun text => text.toList.getLast?) same
  rw [String.toList_append,List.getLast?_append] at last
  cases last

theorem not_hasType_bigInt {amount : Int} : ¬HasType (.bigInt amount : Value Number) "number" := by
  generalize shown : "number" = type
  intro has
  cases has with
  | any => exact absurd shown (by decide)
  | bigInt => exact absurd shown (by decide)
  | member => exact union_ne (by decide) shown

/-- An array has the type of an array exactly if each of its elements has the type of the elements. -/
theorem hasType_array_iff {elements : List (Value Number)} {type : String} :
    HasType (.array elements) (type ++ "[]") ↔ ∀ element ∈ elements, HasType element type := by
  refine ⟨fun has => ?_,.array⟩
  generalize shown : type ++ "[]" = whole at has
  cases has with
  | any => exact absurd shown array_ne_any
  | member _ _ _ => exact absurd shown array_ne_union
  | array each =>
    have texts := congrArg String.toList shown
    rw [String.toList_append,String.toList_append] at texts
    rw [String.toList_inj.mp (List.append_cancel_right texts)]
    exact each

theorem hasType_arrayType {elements : List (Value Number)} {types : List String}
    (apart : ∀ type ∈ types, Whole type.toList)
    (each : ∀ element ∈ elements, ∃ type ∈ types, HasType element type) :
    HasType (.array elements) (arrayType types) := by
  rw [arrayType_eq]
  apply HasType.array
  intro element inside
  obtain ⟨type,listed,has⟩ := each element inside
  have once : type ∈ types.eraseDups := List.mem_eraseDups.mpr listed
  have still : ∀ other ∈ types.eraseDups, Whole other.toList :=
    fun other here => apart other (List.mem_eraseDups.mp here)
  unfold elementType
  split
  · next none => exact absurd (none ▸ once) List.not_mem_nil
  · next single one =>
    rw [one] at once
    exact List.mem_singleton.mp once ▸ has
  · exact .member once still has

end Typing

-- Evaluation

/-- An expression of an operator before another expression. -/
structure Node.Operates (file : SourceFile) (node : Node) (operator : String) (operand : Node) : Prop where
  kind : node.kind = "unary_expression"
  operator : (node.part? .operator).map file.text = some operator
  operand : node.said? = some operand

/-- The value of an expression that is made of literals. -/
inductive Evaluates {Number : Type} (arithmetic : Arithmetic Number) (file : SourceFile) :
    Node → Value Number → Prop
  | text {node : Node} (kind : node.kind = "string" ∨ node.kind = "template_string") :
    Evaluates arithmetic file node (.text (arithmetic.text (file.text node)))
  | number {node : Node} (kind : node.kind = "number") (plain : (file.text node).toList.getLast? ≠ some 'n') :
    Evaluates arithmetic file node (.number (arithmetic.number (file.text node)))
  | bigInt {node : Node} (kind : node.kind = "number") (marked : (file.text node).toList.getLast? = some 'n') :
    Evaluates arithmetic file node (.bigInt (arithmetic.bigInt (file.text node)))
  | yes {node : Node} (kind : node.kind = "true") : Evaluates arithmetic file node (.logical true)
  | no {node : Node} (kind : node.kind = "false") : Evaluates arithmetic file node (.logical false)
  | null {node : Node} (kind : node.kind = "null") : Evaluates arithmetic file node .null
  | undefined {node : Node} (kind : node.kind = "undefined") : Evaluates arithmetic file node .undefined
  | pattern {node : Node} (kind : node.kind = "regex") : Evaluates arithmetic file node (.pattern (file.text node))
  | parenthesised {node inner : Node} {value : Value Number} (kind : node.kind = "parenthesized_expression")
    (said : node.said? = some inner) (evaluates : Evaluates arithmetic file inner value) :
    Evaluates arithmetic file node value
  | not {node operand : Node} {value : Value Number} (operates : node.Operates file "!" operand)
    (evaluates : Evaluates arithmetic file operand value) :
    Evaluates arithmetic file node (.logical (!value.isTruthy arithmetic))
  | sort {node operand : Node} {value : Value Number} (operates : node.Operates file "typeof" operand)
    (evaluates : Evaluates arithmetic file operand value) : Evaluates arithmetic file node (.text value.sort)
  | void {node operand : Node} {value : Value Number} (operates : node.Operates file "void" operand)
    (evaluates : Evaluates arithmetic file operand value) : Evaluates arithmetic file node .undefined
  | plus {node operand : Node} {amount : Number} (operates : node.Operates file "+" operand)
    (evaluates : Evaluates arithmetic file operand (.number amount)) :
    Evaluates arithmetic file node (.number amount)
  | minus {node operand : Node} {amount : Number} (operates : node.Operates file "-" operand)
    (evaluates : Evaluates arithmetic file operand (.number amount)) :
    Evaluates arithmetic file node (.number (arithmetic.negate amount))
  | minusBigInt {node operand : Node} {amount : Int} (operates : node.Operates file "-" operand)
    (evaluates : Evaluates arithmetic file operand (.bigInt amount)) :
    Evaluates arithmetic file node (.bigInt (-amount))
  | complement {node operand : Node} {amount : Number} (operates : node.Operates file "~" operand)
    (evaluates : Evaluates arithmetic file operand (.number amount)) :
    Evaluates arithmetic file node (.number (arithmetic.complement amount))
  | complementBigInt {node operand : Node} {amount : Int} (operates : node.Operates file "~" operand)
    (evaluates : Evaluates arithmetic file operand (.bigInt amount)) :
    Evaluates arithmetic file node (.bigInt (-amount - 1))
  | array {node : Node} {values : List (Value Number)} (kind : node.kind = "array")
    (each : List.Forall₂ (Evaluates arithmetic file) (node.parts.filter fun element => !isComment element) values) :
    Evaluates arithmetic file node (.array values)

section Soundness

variable {Number : Type} {arithmetic : Arithmetic Number} {file : SourceFile} {node inner operand : Node}
  {value : Value Number} {type shown operator : String}

theorem typeOf?_of_literal (known : literalType? node.kind = some shown) : file.typeOf? node = some shown :=
  SourceFile.typeOf?_of_settled (formOf_of_literal known)

theorem typeOf?_of_operates (operates : node.Operates file operator operand) :
    file.typeOf? node = operatorType? operator := by
  have part : ((Place.root node).child? .operator).map (·.node) = node.part? .operator :=
    (Place.root node).map_node_child? .operator
  have form : file.formOf node = .settled (((Place.root node).child? .operator).bind fun operator =>
      operatorType? (file.text operator.node)) := by
    rw [SourceFile.formOf,SourceFile.expressionForm,Place.root,operates.kind]
    rfl
  have text : ((Place.root node).child? .operator).map (fun place => file.text place.node) = some operator := by
    rw [← operates.operator,← part,Option.map_map]
    rfl
  obtain ⟨place,there,rfl⟩ := Option.map_eq_some_iff.mp text
  rw [SourceFile.typeOf?_of_settled form,there]
  rfl

/-- A parenthesised expression has the type of the expression in it, if it has one. -/
theorem typeOf?_of_parenthesised (kind : node.kind = "parenthesized_expression") (said : node.said? = some inner) :
    file.typeOf? node = if node.remarks = [] then file.typeOf? inner else none := by
  have wraps : node.Wraps := .inl kind
  split
  · next bare =>
    rw [SourceFile.typeOf?_of_wrapping (SourceFile.form_of_wraps wraps),Node.head?_parts said,bare]
    rfl
  · next led => exact typeOf?_of_ledByComment ⟨wraps,led⟩

/-- What is shown for a value: the type of the value with its BigInts converted to numbers, which is a number
for a BigInt on its own. -/
structure Shown (arithmetic : Arithmetic Number) (value : Value Number) (type : String) : Prop where
  converted : HasType (value.toNumbers arithmetic) type
  whole : Whole type.toList
  bigInt : ∀ amount, value = .bigInt amount → type = "number"

theorem shown_of_literal {kind : String} (literal : node.kind = kind) (known : literalType? kind = some shown)
    (found : file.typeOf? node = some type) (converted : HasType (value.toNumbers arithmetic) shown)
    (bigInt : ∀ amount, value = .bigInt amount → shown = "number") : Shown arithmetic value type := by
  cases found.symm.trans (typeOf?_of_literal (literal ▸ known))
  exact ⟨converted,whole_literalType? known,bigInt⟩

theorem shown_of_operator (operates : node.Operates file operator operand)
    (known : operatorType? operator = some shown) (found : file.typeOf? node = some type)
    (converted : HasType (value.toNumbers arithmetic) shown)
    (bigInt : ∀ amount, value = .bigInt amount → shown = "number") : Shown arithmetic value type := by
  cases found.symm.trans ((typeOf?_of_operates operates).trans known)
  exact ⟨converted,whole_operatorType? known,bigInt⟩

theorem shown_of_array {array : Node} {values : List (Value Number)} (kind : array.kind = "array")
    (each : List.Forall₂ (Evaluates arithmetic file) (array.parts.filter fun element => !isComment element) values)
    (below : ∀ element value type, AsksFor array element → Evaluates arithmetic file element value →
      file.typeOf? element = some type → Shown arithmetic value type)
    (found : file.typeOf? array = some type) : Shown arithmetic (.array values) type := by
  obtain ⟨types,all,rfl⟩ := exists_elements kind found
  have apart (type : String) (listed : type ∈ types) : Whole type.toList := by
    obtain ⟨element,kept,asks,typed⟩ := exists_element kind all listed
    obtain ⟨value,_,here⟩ := exists_of_forall₂ each.flip kept
    exact (below element value type asks here typed).whole
  refine ⟨?_,whole_arrayType apart,nofun⟩
  rw [Value.toNumbers]
  apply hasType_arrayType apart
  intro converted inside
  obtain ⟨value,listed,rfl⟩ := List.mem_map.mp inside
  obtain ⟨element,kept,here⟩ := exists_of_forall₂ each listed
  obtain ⟨type,shown,typed⟩ := List.mem_map.mp (all ▸ List.mem_map_of_mem kept)
  exact ⟨type,shown,(below element value type (asksFor_of_kept kind kept) here typed.symm).converted⟩

/-- Induction on the expression: each element and each operand is smaller. -/
theorem shown_of_evaluates (evaluates : Evaluates arithmetic file node value)
    (found : file.typeOf? node = some type) : Shown arithmetic value type := by
  induction size : sizeOf node using Nat.strongRecOn generalizing node value type with
  | ind size ih =>
    subst size
    cases evaluates with
    | text kind =>
      rcases kind with kind | kind
      · exact shown_of_literal kind rfl found (by simpa [Value.toNumbers] using .text _) nofun
      · exact shown_of_literal kind rfl found (by simpa [Value.toNumbers] using .text _) nofun
    | number kind _ =>
      exact shown_of_literal kind rfl found (by simpa [Value.toNumbers] using .number _) nofun
    | bigInt kind _ =>
      exact shown_of_literal kind rfl found (by simpa [Value.toNumbers] using .number _) fun _ _ => rfl
    | yes kind =>
      exact shown_of_literal kind rfl found (by simpa [Value.toNumbers] using .logical _) nofun
    | no kind =>
      exact shown_of_literal kind rfl found (by simpa [Value.toNumbers] using .logical _) nofun
    | null kind =>
      exact shown_of_literal kind rfl found (by simpa [Value.toNumbers] using .null) nofun
    | undefined kind =>
      exact shown_of_literal kind rfl found (by simpa [Value.toNumbers] using .undefined) nofun
    | pattern kind =>
      exact shown_of_literal kind rfl found (by simpa [Value.toNumbers] using .pattern _) nofun
    | parenthesised kind said evaluates =>
      rw [typeOf?_of_parenthesised kind said] at found
      split at found
      · exact ih _ (Node.sizeOf_lt_of_mem_parts (List.mem_of_find?_eq_some said)) evaluates found rfl
      · cases found
    | not operates _ =>
      exact shown_of_operator operates rfl found (by simpa [Value.toNumbers] using .logical _) nofun
    | sort operates _ =>
      exact shown_of_operator operates rfl found (by simpa [Value.toNumbers] using .text _) nofun
    | void operates _ =>
      exact shown_of_operator operates rfl found (by simpa [Value.toNumbers] using .undefined) nofun
    | plus operates _ =>
      exact shown_of_operator operates rfl found (by simpa [Value.toNumbers] using .number _) nofun
    | minus operates _ =>
      exact shown_of_operator operates rfl found (by simpa [Value.toNumbers] using .number _) nofun
    | minusBigInt operates _ =>
      exact shown_of_operator operates rfl found (by simpa [Value.toNumbers] using .number _) fun _ _ => rfl
    | complement operates _ =>
      exact shown_of_operator operates rfl found (by simpa [Value.toNumbers] using .number _) nofun
    | complementBigInt operates _ =>
      exact shown_of_operator operates rfl found (by simpa [Value.toNumbers] using .number _) fun _ _ => rfl
    | array kind each =>
      refine shown_of_array kind each (fun element value type asks here typed => ?_) found
      exact ih _ asks.sizeOf_lt here typed rfl

/-- A type is shown unless a comment stands before an expression in parentheses. -/
theorem exists_type_of_evaluates (evaluates : Evaluates arithmetic file node value)
    (clear : ∀ part, Reaches node part → ¬part.LedByComment) : ∃ type, file.typeOf? node = some type := by
  induction size : sizeOf node using Nat.strongRecOn generalizing node value with
  | ind size ih =>
    subst size
    have literal {kind shown : String} (same : node.kind = kind) (known : literalType? kind = some shown) :
        ∃ type, file.typeOf? node = some type := ⟨shown,typeOf?_of_literal (same ▸ known)⟩
    have operated {operator shown : String} {operand : Node} (operates : node.Operates file operator operand)
        (known : operatorType? operator = some shown) : ∃ type, file.typeOf? node = some type :=
      ⟨shown,(typeOf?_of_operates operates).trans known⟩
    cases evaluates with
    | text kind =>
      rcases kind with kind | kind
      · exact literal kind rfl
      · exact literal kind rfl
    | number kind _ => exact literal kind rfl
    | bigInt kind _ => exact literal kind rfl
    | yes kind => exact literal kind rfl
    | no kind => exact literal kind rfl
    | null kind => exact literal kind rfl
    | undefined kind => exact literal kind rfl
    | pattern kind => exact literal kind rfl
    | parenthesised kind said evaluates =>
      have wraps : node.Wraps := .inl kind
      have bare : node.remarks = [] := by
        by_contra led
        exact clear node .refl ⟨wraps,led⟩
      have leads := Node.head?_parts said
      rw [bare] at leads
      have asks : AsksFor node _ := .inner wraps leads
      rw [typeOf?_of_parenthesised kind said,if_pos bare]
      exact ih _ asks.sizeOf_lt evaluates (fun part reaches => clear part (.head asks reaches)) rfl
    | not operates _ => exact operated operates rfl
    | sort operates _ => exact operated operates rfl
    | void operates _ => exact operated operates rfl
    | plus operates _ => exact operated operates rfl
    | minus operates _ => exact operated operates rfl
    | minusBigInt operates _ => exact operated operates rfl
    | complement operates _ => exact operated operates rfl
    | complementBigInt operates _ => exact operated operates rfl
    | array kind each =>
      rw [← Option.ne_none_iff_exists',SourceFile.typeOf?_of_array (SourceFile.form_of_array kind),
        Ne,Option.map_eq_none_iff,mapM_eq_none_iff]
      rintro ⟨element,kept,none⟩
      have asks := asksFor_of_kept kind kept
      obtain ⟨value,_,here⟩ := exists_of_forall₂ each.flip kept
      obtain ⟨type,shown⟩ := ih _ asks.sizeOf_lt here (fun part reaches => clear part (.head asks reaches)) rfl
      exact absurd (none.symm.trans shown) (by simp)

end Soundness

end SourceAtlas.Syntax

-- Initialisers

namespace SourceAtlas

open Syntax

/-- An initialiser that is made of literals shows a type, unless a comment stands before an expression in
parentheses. The type is that of its value with each BigInt converted to a number, so it is that of the value
if no BigInt is in it; a BigInt on its own is shown as a number, which it is not. -/
theorem inferredType?_sound {Number : Type} (arithmetic : Arithmetic Number) (file : SourceFile)
    {declaration initialiser : Place} (found : declaration.child? .value = some initialiser)
    {value : Value Number} (evaluates : Evaluates arithmetic file initialiser.node value) :
    ((∀ part, Reaches initialiser.node part → ¬part.LedByComment) →
      ∃ type, Reader.syntactic.inferredType? file declaration = some type) ∧
    ∀ type, Reader.syntactic.inferredType? file declaration = some type →
      HasType (value.toNumbers arithmetic) type ∧
      (value.bigInts = [] → HasType value type) ∧
      ∀ amount, value = .bigInt amount → type = "number" ∧ ¬HasType value type := by
  have shown : Reader.syntactic.inferredType? file declaration = file.typeOf? initialiser.node :=
    SourceFile.inferredType?_eq found
  rw [shown]
  refine ⟨exists_type_of_evaluates evaluates,fun type typed => ?_⟩
  obtain ⟨converted,_,bigInt⟩ := shown_of_evaluates evaluates typed
  refine ⟨converted,fun exact => ?_,?_⟩
  · rw [Value.toNumbers_of_exact arithmetic value exact] at converted
    exact converted
  · rintro amount rfl
    cases bigInt amount rfl
    exact ⟨rfl,not_hasType_bigInt⟩

def literalTree : Node :=
  ⟨"program",true,0,53,[],[
    ⟨"class_declaration",true,0,53,[],[
      ⟨"class",false,0,5,[],[]⟩,⟨"type_identifier",true,6,7,[.name],[]⟩,
      ⟨"class_body",true,8,53,[.body],[
        ⟨"\x7b",false,8,9,[],[]⟩,
        ⟨"public_field_definition",true,10,16,[],[
          ⟨"property_identifier",true,10,11,[.name],[]⟩,⟨"=",false,12,13,[],[]⟩,
          ⟨"number",true,14,16,[.value],[]⟩]⟩,
        ⟨";",false,16,17,[],[]⟩,
        ⟨"public_field_definition",true,18,27,[],[
          ⟨"property_identifier",true,18,19,[.name],[]⟩,⟨"=",false,20,21,[],[]⟩,
          ⟨"array",true,22,27,[.value],[
            ⟨"[",false,22,23,[],[]⟩,
            ⟨"unary_expression",true,23,26,[],[
              ⟨"-",false,23,24,[.operator],[]⟩,⟨"number",true,24,26,[],[]⟩]⟩,
            ⟨"]",false,26,27,[],[]⟩]⟩]⟩,
        ⟨";",false,27,28,[],[]⟩,
        ⟨"public_field_definition",true,29,50,[],[
          ⟨"property_identifier",true,29,30,[.name],[]⟩,⟨"=",false,31,32,[],[]⟩,
          ⟨"array",true,33,50,[.value],[
            ⟨"[",false,33,34,[],[]⟩,
            ⟨"parenthesized_expression",true,34,38,[],[
              ⟨"(",false,34,35,[],[]⟩,
              ⟨"unary_expression",true,35,37,[],[
                ⟨"-",false,35,36,[.operator],[]⟩,⟨"number",true,36,37,[],[]⟩]⟩,
              ⟨")",false,37,38,[],[]⟩]⟩,
            ⟨",",false,38,39,[],[]⟩,
            ⟨"unary_expression",true,40,49,[],[
              ⟨"typeof",false,40,46,[.operator],[]⟩,⟨"number",true,47,49,[],[]⟩]⟩,
            ⟨"]",false,49,50,[],[]⟩]⟩]⟩,
        ⟨";",false,50,51,[],[]⟩,⟨"\x7d",false,52,53,[],[]⟩]⟩]⟩]⟩

def literalFile : SourceFile :=
  ⟨⟨"a.ts"⟩,Utf8.encode "class A \x7b a = 1n; b = [-1n]; c = [(-1), typeof 2n]; \x7d".toList,literalTree⟩

/-- A field of the class: one with a BigInt, one with an array of a BigInt, and one without BigInts. -/
def literalField (index : Nat) : Place := literalFile.root.descend [0,1,index]

def literalValue (index : Nat) : Place := (literalField index).descend [1]

def decimal (text : String) : Int :=
  (text.toList.takeWhile Char.isDigit).foldl (fun amount digit => 10 * amount + (digit.toNat - 48)) 0

def wholeArithmetic : Arithmetic Int where
  text literal := String.ofList (literal.toList.drop 1).dropLast
  number := decimal
  bigInt := decimal
  ofBigInt amount := amount
  negate amount := -amount
  complement amount := -amount - 1
  isNothing amount := amount == 0

/-- A part of an array. -/
def literalPart (array : Nat) (path : List Nat) : Node := ((literalValue array).descend path).node

theorem literal_texts : literalFile.text (literalValue 0).node = "1n" ∧
    literalFile.text (literalPart 2 [0,0,0]) = "1" ∧ literalFile.text (literalPart 2 [1,0]) = "2n" ∧
    ((literalPart 2 [0,0]).part? .operator).map literalFile.text = some "-" ∧
    ((literalPart 2 [1]).part? .operator).map literalFile.text = some "typeof" ∧
    literalFile.text (literalPart 1 [0,0]) = "1n" ∧
    ((literalPart 1 [0]).part? .operator).map literalFile.text = some "-" := by decide +kernel

theorem evaluates_one {node : Node} (kind : node.kind = "number") (text : literalFile.text node = "1n") :
    Evaluates wholeArithmetic literalFile node (.bigInt 1) := by
  have read : Evaluates wholeArithmetic literalFile node (.bigInt (decimal (literalFile.text node))) :=
    .bigInt kind (by rw [text]; decide)
  rw [text] at read
  exact read

theorem literal_bigInt : Evaluates wholeArithmetic literalFile (literalValue 0).node (.bigInt 1) :=
  evaluates_one rfl literal_texts.1

theorem literal_bigInts : Evaluates wholeArithmetic literalFile (literalValue 1).node
    (.array [.bigInt (-1)]) := by
  obtain ⟨_,_,_,_,_,text,negated⟩ := literal_texts
  have single : Evaluates wholeArithmetic literalFile (literalPart 1 [0]) (.bigInt (-1)) :=
    .minusBigInt ⟨rfl,negated,rfl⟩ (evaluates_one rfl text)
  exact .array rfl (.cons single .nil)

theorem literal_array : Evaluates wholeArithmetic literalFile (literalValue 2).node
    (.array [.number (-1),.text "bigint"]) := by
  obtain ⟨_,one,two,minus,typeof,_⟩ := literal_texts
  have amount : Evaluates wholeArithmetic literalFile (literalPart 2 [0,0,0]) (.number 1) := by
    have read : Evaluates wholeArithmetic literalFile (literalPart 2 [0,0,0])
        (.number (decimal (literalFile.text (literalPart 2 [0,0,0])))) := .number rfl (by rw [one]; decide)
    rw [one] at read
    exact read
  have first : Evaluates wholeArithmetic literalFile (literalPart 2 [0]) (.number (-1)) :=
    .parenthesised rfl rfl (.minus ⟨rfl,minus,rfl⟩ amount)
  have marked : (literalFile.text (literalPart 2 [1,0])).toList.getLast? = some 'n' := by
    rw [two]
    decide
  have second : Evaluates wholeArithmetic literalFile (literalPart 2 [1]) (.text "bigint") :=
    .sort ⟨rfl,typeof,rfl⟩ (.bigInt rfl marked)
  exact .array rfl (.cons first (.cons second .nil))

theorem literal_types :
    Reader.syntactic.inferredType? literalFile (literalField 0) = some "number" ∧
    Reader.syntactic.inferredType? literalFile (literalField 1) = some "number[]" ∧
    Reader.syntactic.inferredType? literalFile (literalField 2) = some "(number | string)[]" := by
  have bigInt : (literalField 0).child? .value = some (literalValue 0) := rfl
  have bigInts : (literalField 1).child? .value = some (literalValue 1) := rfl
  have array : (literalField 2).child? .value = some (literalValue 2) := rfl
  obtain ⟨_,_,_,minus,typeof,_,negated⟩ := literal_texts
  have number : literalFile.typeOf? (literalPart 2 [0,0]) = some "number" :=
    typeOf?_of_operates ⟨rfl,minus,rfl⟩
  have first : literalFile.typeOf? (literalPart 2 [0]) = some "number" :=
    (typeOf?_of_parenthesised rfl rfl).trans number
  have second : literalFile.typeOf? (literalPart 2 [1]) = some "string" :=
    typeOf?_of_operates ⟨rfl,typeof,rfl⟩
  have type : arrayType ["number","string"] = "(number | string)[]" := by decide +kernel
  have elements : literalFile.typeOf? (literalValue 2).node = some (arrayType ["number","string"]) := by
    apply typeOf?_of_elements rfl
    change [literalPart 2 [0],literalPart 2 [1]].map literalFile.typeOf? = _
    rw [List.map_cons,List.map_singleton,first,second]
    rfl
  have single : literalFile.typeOf? (literalPart 1 [0]) = some "number" := typeOf?_of_operates ⟨rfl,negated,rfl⟩
  have one : arrayType ["number"] = "number[]" := by decide +kernel
  have element : literalFile.typeOf? (literalValue 1).node = some (arrayType ["number"]) := by
    apply typeOf?_of_elements rfl
    change [literalPart 1 [0]].map literalFile.typeOf? = _
    rw [List.map_singleton,single]
    rfl
  exact ⟨(SourceFile.inferredType?_eq bigInt).trans (typeOf?_of_literal rfl),
    (SourceFile.inferredType?_eq bigInts).trans (one ▸ element),(SourceFile.inferredType?_eq array).trans (type ▸ elements)⟩

theorem inferredType?_sound_literals :
    ((literalField 0).child? .value = some (literalValue 0) ∧
      Evaluates wholeArithmetic literalFile (literalValue 0).node (.bigInt 1) ∧
      (∀ part, Reaches (literalValue 0).node part → ¬part.LedByComment) ∧
      Reader.syntactic.inferredType? literalFile (literalField 0) = some "number" ∧
      HasType (Value.number (1 : Int)) "number" ∧ ¬HasType (.bigInt 1 : Value Int) "number") ∧
    (literalField 2).child? .value = some (literalValue 2) ∧
      Evaluates wholeArithmetic literalFile (literalValue 2).node (.array [.number (-1),.text "bigint"]) ∧
      Reader.syntactic.inferredType? literalFile (literalField 2) = some "(number | string)[]" ∧
      HasType (.array [.number (-1 : Int),.text "bigint"]) "(number | string)[]" := by
  have bigInt : (literalField 0).child? .value = some (literalValue 0) := rfl
  have array : (literalField 2).child? .value = some (literalValue 2) := rfl
  have clear (part : Node) (reaches : Reaches (literalValue 0).node part) : ¬part.LedByComment := by
    have form : literalFile.formOf (literalValue 0).node = .settled (some "number") := rfl
    have kind : (literalValue 0).node.kind = "number" := rfl
    cases Reaches.eq_of_settled form reaches
    exact fun led => absurd led.wraps (by simp [Node.Wraps,kind])
  obtain ⟨answers,single⟩ := inferredType?_sound wholeArithmetic literalFile bigInt literal_bigInt
  obtain ⟨_,several⟩ := inferredType?_sound wholeArithmetic literalFile array literal_array
  obtain ⟨_,_,shown⟩ := literal_types
  obtain ⟨type,known⟩ := answers clear
  obtain ⟨converted,_,alone⟩ := single type known
  obtain ⟨rfl,other⟩ := alone 1 rfl
  have number : (Value.bigInt 1).toNumbers wholeArithmetic = .number 1 := by
    rw [Value.toNumbers]
    rfl
  exact ⟨⟨bigInt,literal_bigInt,clear,known,number ▸ converted,other⟩,array,literal_array,shown,
    (several _ shown).2.1 (by simp [Value.bigInts])⟩

/-- A type that is shown is not always that of the value: neither for a BigInt nor for an array of one. -/
theorem inferredType?_unsound :
    (Reader.syntactic.inferredType? literalFile (literalField 0) = some "number" ∧
      ¬HasType (.bigInt 1 : Value Int) "number") ∧
    (Reader.syntactic.inferredType? literalFile (literalField 1) = some "number[]" ∧
      ¬HasType (.array [.bigInt (-1)] : Value Int) "number[]") ∧
    ¬∀ (Number : Type) (arithmetic : Arithmetic Number) (file : SourceFile) (declaration initialiser : Place)
      (value : Value Number) (type : String), declaration.child? .value = some initialiser →
      Evaluates arithmetic file initialiser.node value →
      Reader.syntactic.inferredType? file declaration = some type → HasType value type := by
  obtain ⟨single,several,_⟩ := literal_types
  have array : ¬HasType (.array [.bigInt (-1)] : Value Int) "number[]" := by
    intro typed
    have each : ∀ element ∈ [Value.bigInt (-1)], HasType element "number" := hasType_array_iff.mp typed
    exact not_hasType_bigInt (each _ (List.mem_singleton_self _))
  refine ⟨⟨single,not_hasType_bigInt⟩,⟨several,array⟩,fun claimed => ?_⟩
  exact array (claimed Int wholeArithmetic literalFile (literalField 1) (literalValue 1) _ _ rfl
    literal_bigInts several)

end SourceAtlas
