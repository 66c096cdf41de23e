import Mathlib.Data.List.Basic
import Mathlib.Logic.Relation
import SourceAtlas.Proofs.FirstFault
import SourceAtlas.Syntax.TypeText

/-! The equations of type inference, read off nodes alone: what is above an expression and before it has
no part in its type. -/
namespace SourceAtlas.Syntax

-- What a node shows of itself

namespace Node

def parts (node : Node) : List Node := node.children.filter (·.named)

def part? (node : Node) (field : Field) : Option Node :=
  node.children.find? fun child => field ∈ child.roles

theorem mem_children_of_mem_parts {node part : Node} (inside : part ∈ node.parts) : part ∈ node.children :=
  (List.mem_filter.mp inside).1

theorem sizeOf_lt_of_mem_parts {node part : Node} (inside : part ∈ node.parts) :
    sizeOf part < sizeOf node := sizeOf_child_lt (mem_children_of_mem_parts inside)

/-- An expression whose type is that of its first part. -/
def Wraps (node : Node) : Prop :=
  node.kind = "parenthesized_expression" ∨ node.kind = "satisfies_expression" ∨
    node.kind = "as_expression" ∧ ∃ last, node.children.getLast? = some last ∧ last.kind = "const"

/-- Nodes that read as the same type. -/
structure ReadsLike (first second : Node) : Prop where
  kind : first.kind = second.kind
  whole : first.span = second.span
  carried : wrapsType first.kind = true → first.parts.head?.map span = second.parts.head?.map span

theorem ReadsLike.refl (node : Node) : ReadsLike node node := ⟨rfl,rfl,fun _ => rfl⟩

/-- Nodes of which inference sees the same, the types of their parts apart. -/
structure LooksLike (first second : Node) : Prop where
  kind : first.kind = second.kind
  last : Option.Rel ReadsLike first.children.getLast? second.children.getLast?
  fields : ∀ field, (first.part? field).map span = (second.part? field).map span

theorem LooksLike.refl (node : Node) : LooksLike node node where
  kind := rfl
  last := by
    cases node.children.getLast? with
    | none => exact .none
    | some last => exact .some (.refl last)
  fields := fun _ => rfl

end Node

/-- The place below a place to which the positions among named children lead. -/
def Place.descend (place : Place) : List Nat → Place
  | [] => place
  | index :: rest => ((place.namedChildren[index]?).getD place).descend rest

-- Texts and forms

section Forms

variable {file : SourceFile} {first second place : Place}

theorem SourceFile.text_eq {here there : Node} (same : here.span = there.span) :
    file.text here = file.text there := by
  have start : here.start = there.start := congrArg Span.start same
  have stop : here.stop = there.stop := congrArg Span.stop same
  rw [text,text,start,stop]

theorem SourceFile.map_text_eq {here there : Option Node} (same : here.map Node.span = there.map Node.span) :
    here.map file.text = there.map file.text := by
  cases here with
  | none => rw [Option.map_eq_none_iff.mp same.symm]
  | some node =>
    obtain ⟨other,rfl,span⟩ := Option.map_eq_some_iff.mp same.symm
    exact congrArg some (text_eq span.symm)

theorem SourceFile.map_lineText_eq {here there : Option Node}
    (same : here.map Node.span = there.map Node.span) :
    here.map file.lineText = there.map file.lineText := by
  have texts := congrArg (Option.map fun text => String.ofList (Text.oneLine text.toList))
    (file.map_text_eq same)
  rw [Option.map_map,Option.map_map] at texts
  exact texts

theorem Place.map_node_head? (place : Place) : place.namedChildren.head?.map (·.node) = place.node.parts.head? := by
  rw [← List.head?_map,map_node_namedChildren]
  rfl

theorem Place.typeNode?_eq (place : Place) : place.typeNode? =
    if wrapsType place.node.kind then place.node.parts.head? else some place.node := by
  rw [typeNode?,map_node_head?]

theorem SourceFile.typeText?_eq (like : first.node.ReadsLike second.node) :
    file.typeText? first = file.typeText? second := by
  have spans : first.typeNode?.map Node.span = second.typeNode?.map Node.span := by
    rw [Place.typeNode?_eq,Place.typeNode?_eq,← like.kind]
    split
    · next wraps => exact like.carried wraps
    · exact congrArg some like.whole
  rw [typeText?,typeText?,file.map_lineText_eq spans]

theorem SourceFile.constructedType?_eq (place : Place) : file.constructedType? place =
    ((place.node.part? .constructor).map file.text).map fun name =>
      name ++ ((place.node.part? .typeArguments).map file.lineText).getD "" := by
  have constructor : (place.child? .constructor).map (·.node) = place.node.part? .constructor :=
    place.map_node_child? .constructor
  have arguments : (place.child? .typeArguments).map (·.node) = place.node.part? .typeArguments :=
    place.map_node_child? .typeArguments
  rw [constructedType?,← constructor,← arguments,Option.map_map,Option.map_map]
  cases place.child? .typeArguments <;> rfl

theorem Place.last_like (like : first.node.LooksLike second.node) :
    Option.Rel (fun here there : Place => here.node.ReadsLike there.node)
      first.children.getLast? second.children.getLast? := by
  have last := like.last
  rw [← map_node_children,← map_node_children,List.getLast?_map,List.getLast?_map] at last
  generalize first.children.getLast? = here at last ⊢
  generalize second.children.getLast? = there at last ⊢
  cases here <;> cases there <;> cases last
  · exact .none
  · next same => exact .some same

theorem SourceFile.expressionForm_eq (like : first.node.LooksLike second.node) :
    file.expressionForm first = file.expressionForm second := by
  have constructed : file.constructedType? first = file.constructedType? second := by
    rw [constructedType?_eq,constructedType?_eq,file.map_text_eq (like.fields .constructor),
      file.map_lineText_eq (like.fields .typeArguments)]
  have operated (place : Place) :
      ((place.child? .operator).bind fun operator => operatorType? (file.text operator.node)) =
        ((place.node.part? .operator).map file.text).bind operatorType? := by
    have operator : (place.child? .operator).map (·.node) = place.node.part? .operator :=
      place.map_node_child? .operator
    rw [← operator,Option.map_map,Option.bind_map]
    rfl
  unfold expressionForm
  rw [like.kind,constructed,operated,operated,file.map_text_eq (like.fields .operator)]
  have last := Place.last_like like
  generalize first.children.getLast? = here at last ⊢
  generalize second.children.getLast? = there at last ⊢
  cases last with
  | none => rfl
  | some same => simp only [same.kind,file.typeText?_eq same]

end Forms

-- Types of expressions

namespace SourceFile

variable {file : SourceFile} {place : Place} {node : Node}

/-- The type that an expression shows, whatever stands around it. -/
def typeOf? (file : SourceFile) (node : Node) : Option String := file.expressionType? (.root node)

def formOf (file : SourceFile) (node : Node) : ExpressionForm := file.expressionForm (.root node)

theorem formOf_eq {first second : Node} (like : first.LooksLike second) :
    file.formOf first = file.formOf second := expressionForm_eq like

theorem expressionForm_eq_formOf (place : Place) : file.expressionForm place = file.formOf place.node :=
  expressionForm_eq (.refl place.node)

theorem expressionType?_of_settled {type : Option String} (form : file.formOf place.node = .settled type) :
    file.expressionType? place = type := by
  rw [expressionType?,expressionForm_eq_formOf,form]

theorem expressionType?_of_wrapping (form : file.formOf place.node = .wrapping)
    (below : ∀ inner ∈ place.namedChildren, file.expressionType? inner = file.typeOf? inner.node) :
    file.expressionType? place = place.node.parts.head?.bind file.typeOf? := by
  have head : place.namedChildren.attach.head?.map Subtype.val = place.namedChildren.head? := by
    rw [← List.head?_map,List.attach_map_subtype_val]
  rw [expressionType?,expressionForm_eq_formOf,form,← Place.map_node_head?,← head]
  cases place.namedChildren.attach.head? with
  | none => rfl
  | some inner => exact below inner.1 inner.2

theorem expressionType?_of_array (form : file.formOf place.node = .array)
    (below : ∀ inner ∈ place.namedChildren, file.expressionType? inner = file.typeOf? inner.node) :
    file.expressionType? place =
      ((place.node.parts.filter fun element => !isComment element).mapM file.typeOf?).map arrayType := by
  have elements : (place.namedChildren.attach.filter fun element => !isComment element.1.node).map (·.1.node) =
      place.node.parts.filter fun element => !isComment element := by
    have nodes : place.namedChildren.attach.map (·.1.node) = place.node.parts := by
      have whole := congrArg (List.map Place.node) (List.attach_map_subtype_val place.namedChildren)
      rw [List.map_map] at whole
      exact whole.trans place.map_node_namedChildren
    rw [← nodes,List.filter_map]
    rfl
  rw [expressionType?,expressionForm_eq_formOf,form,← elements,List.mapM_map]
  apply congrArg (Option.map arrayType)
  apply mapM_eq_of_forall
  intro element _
  exact below element.1 element.2

/-- The type of an expression is that of its node. -/
theorem expressionType?_eq_typeOf? (place : Place) : file.expressionType? place = file.typeOf? place.node := by
  induction size : sizeOf place.node using Nat.strongRecOn generalizing place with
  | ind size ih =>
    subst size
    have below (other : Place) (same : other.node = place.node) : ∀ inner ∈ other.namedChildren,
        file.expressionType? inner = file.typeOf? inner.node := by
      intro inner inside
      have smaller := Place.sizeOf_lt_of_mem_namedChildren inside
      exact ih _ (same ▸ smaller) inner rfl
    cases form : file.formOf place.node with
    | settled type =>
      have alone : file.typeOf? place.node = type := expressionType?_of_settled form
      rw [expressionType?_of_settled form,alone]
    | wrapping =>
      have root : file.formOf (Place.root place.node).node = .wrapping := form
      have alone := expressionType?_of_wrapping root (below (.root place.node) rfl)
      exact (expressionType?_of_wrapping form (below place rfl)).trans alone.symm
    | array =>
      have root : file.formOf (Place.root place.node).node = .array := form
      have alone := expressionType?_of_array root (below (.root place.node) rfl)
      exact (expressionType?_of_array form (below place rfl)).trans alone.symm

theorem inferredType?_eq {declaration value : Place} (found : declaration.child? .value = some value) :
    file.inferredType? declaration = file.typeOf? value.node := by
  rw [inferredType?,found]
  exact expressionType?_eq_typeOf? value

theorem typeOf?_of_settled {type : Option String} (form : file.formOf node = .settled type) :
    file.typeOf? node = type := expressionType?_of_settled form

theorem typeOf?_of_wrapping (form : file.formOf node = .wrapping) :
    file.typeOf? node = node.parts.head?.bind file.typeOf? :=
  expressionType?_of_wrapping form fun inner _ => expressionType?_eq_typeOf? inner

theorem typeOf?_of_array (form : file.formOf node = .array) : file.typeOf? node =
    ((node.parts.filter fun element => !isComment element).mapM file.typeOf?).map arrayType :=
  expressionType?_of_array form fun inner _ => expressionType?_eq_typeOf? inner

theorem getLast?_children_root (node : Node) :
    (Place.root node).children.getLast?.map (·.node) = node.children.getLast? := by
  rw [← List.getLast?_map,Place.map_node_children]
  rfl

/-- Where the type of each kind of expression comes from. -/
inductive Shows (file : SourceFile) (node : Node) : ExpressionForm → Prop
  | literal {type : String} (known : literalType? node.kind = some type) : Shows file node (.settled (some type))
  | wrapping (wraps : node.Wraps) : Shows file node .wrapping
  | cast {last : Place} (kind : node.kind = "as_expression")
    (ends : (Place.root node).children.getLast? = some last) : Shows file node (.settled (file.typeText? last))
  | constructed (kind : node.kind = "new_expression") :
    Shows file node (.settled (file.constructedType? (.root node)))
  | operated (kind : node.kind = "unary_expression") :
    Shows file node (.settled (((Place.root node).child? .operator).bind fun operator =>
      operatorType? (file.text operator.node)))
  | array (kind : node.kind = "array") : Shows file node .array
  | unknown : Shows file node (.settled none)

theorem shows_formOf (file : SourceFile) (node : Node) : Shows file node (file.formOf node) := by
  unfold formOf expressionForm
  split
  · next known => exact .literal known
  · split
    · next kind => exact .wrapping (.inl kind)
    · next kind => exact .wrapping (.inr (.inl kind))
    · next kind =>
      have there := getLast?_children_root node
      split
      · exact .unknown
      · next last found =>
        split
        · next constant =>
          rw [found] at there
          exact .wrapping (.inr (.inr ⟨kind,last.node,there.symm,constant⟩))
        · exact .cast kind found
    · next kind => exact .constructed kind
    · next kind => exact .operated kind
    · next kind => exact .array kind
    · exact .unknown

theorem wraps_of_form (form : file.formOf node = .wrapping) : node.Wraps := by
  cases form ▸ shows_formOf file node with
  | wrapping wraps => exact wraps

theorem array_of_form (form : file.formOf node = .array) : node.kind = "array" := by
  cases form ▸ shows_formOf file node with
  | array kind => exact kind

theorem form_of_wraps (wraps : node.Wraps) : file.formOf node = .wrapping := by
  rcases wraps with kind | kind | ⟨kind,last,found,constant⟩
  · rw [formOf,expressionForm,Place.root,kind]
    rfl
  · rw [formOf,expressionForm,Place.root,kind]
    rfl
  · rw [← getLast?_children_root] at found
    obtain ⟨place,there,rfl⟩ := Option.map_eq_some_iff.mp found
    have root : (Place.root node).node.kind = "as_expression" := kind
    rw [formOf,expressionForm,there,root]
    exact if_pos constant

theorem form_of_array (kind : node.kind = "array") : file.formOf node = .array := by
  rw [formOf,expressionForm,Place.root,kind]
  rfl

end SourceFile

-- Parts whose types are asked for

/-- A step of inference, from an expression to one whose type its own depends on. -/
inductive AsksFor : Node → Node → Prop
  | inner {node first : Node} (wraps : node.Wraps) (leads : node.parts.head? = some first) : AsksFor node first
  | element {node element : Node} (array : node.kind = "array") (inside : element ∈ node.parts)
    (said : isComment element = false) : AsksFor node element

abbrev Reaches : Node → Node → Prop := Relation.ReflTransGen AsksFor

section Reaching

variable {file : SourceFile} {node part : Node} {type : String}

theorem AsksFor.sizeOf_lt (asks : AsksFor node part) : sizeOf part < sizeOf node := by
  cases asks with
  | inner _ leads => exact Node.sizeOf_lt_of_mem_parts (List.mem_of_mem_head? leads)
  | element _ inside _ => exact Node.sizeOf_lt_of_mem_parts inside

theorem infix_intercalate {separator piece : List Char} {pieces : List (List Char)} (inside : piece ∈ pieces) :
    piece <:+: separator.intercalate pieces := by
  induction pieces with
  | nil => exact absurd inside List.not_mem_nil
  | cons first rest ih =>
    by_cases last : rest = []
    · subst last
      rw [List.intercalate_singleton]
      exact List.mem_singleton.mp inside ▸ List.infix_rfl
    · rw [List.intercalate_cons_of_ne_nil last]
      rcases List.mem_cons.mp inside with rfl | later
      · rw [List.append_assoc]
        exact (List.prefix_append _ _).isInfix
      · exact (ih later).trans (List.suffix_append _ _).isInfix

theorem infix_arrayType {elements : List String} (inside : type ∈ elements) :
    type.toList <:+: (arrayType elements).toList := by
  have once : type ∈ elements.eraseDups := List.mem_eraseDups.mpr inside
  unfold arrayType
  split
  · next none => exact absurd (none ▸ once) List.not_mem_nil
  · next element one =>
    rw [one] at once
    cases List.mem_singleton.mp once
    rw [String.toList_append]
    exact (List.prefix_append _ _).isInfix
  · have joined : type.toList <:+: (" | ".intercalate elements.eraseDups).toList := by
      rw [String.toList_intercalate]
      exact infix_intercalate (List.mem_map_of_mem once)
    rw [String.toList_append,String.toList_append]
    exact joined.trans (List.infix_append _ _ _)

/-- The types of all elements of an array with a type. -/
theorem exists_elements (array : node.kind = "array") (found : file.typeOf? node = some type) :
    ∃ elements, ((node.parts.filter fun element => !isComment element).map file.typeOf?) =
      elements.map some ∧ arrayType elements = type := by
  rw [SourceFile.typeOf?_of_array (SourceFile.form_of_array array)] at found
  obtain ⟨elements,all,rfl⟩ := Option.map_eq_some_iff.mp found
  exact ⟨elements,mapM_eq_some_iff.mp all,rfl⟩

theorem AsksFor.exists_type (asks : AsksFor node part) (found : file.typeOf? node = some type) :
    ∃ inner, file.typeOf? part = some inner ∧ inner.toList <:+: type.toList := by
  cases asks with
  | inner wraps leads =>
    rw [SourceFile.typeOf?_of_wrapping (SourceFile.form_of_wraps wraps),leads] at found
    exact ⟨type,found,List.infix_rfl⟩
  | element array inside said =>
    obtain ⟨elements,all,rfl⟩ := exists_elements array found
    have kept : part ∈ node.parts.filter fun element => !isComment element :=
      List.mem_filter.mpr ⟨inside,by rw [said]; rfl⟩
    obtain ⟨inner,listed,shown⟩ := List.mem_map.mp (all ▸ List.mem_map_of_mem kept)
    exact ⟨inner,shown.symm,infix_arrayType listed⟩

/-- Whatever inference asks for on the way to a type has a type, which stands within that type. -/
theorem Reaches.exists_type (reaches : Reaches node part) (found : file.typeOf? node = some type) :
    ∃ inner, file.typeOf? part = some inner ∧ inner.toList <:+: type.toList := by
  induction reaches with
  | refl => exact ⟨type,found,List.infix_rfl⟩
  | tail _ asks ih =>
    obtain ⟨outer,above,within⟩ := ih
    obtain ⟨inner,shown,deeper⟩ := asks.exists_type above
    exact ⟨inner,shown,deeper.trans within⟩

theorem Reaches.eq_of_settled {shown : Option String} (form : file.formOf node = .settled shown)
    (reaches : Reaches node part) : part = node := by
  rcases Relation.ReflTransGen.cases_head reaches with same | ⟨next,asks,_⟩
  · exact same.symm
  · cases asks with
    | inner wraps _ => cases (SourceFile.form_of_wraps wraps).symm.trans form
    | element array _ _ => cases (SourceFile.form_of_array array).symm.trans form

theorem Reaches.of_array (array : node.kind = "array") (reaches : Reaches node part) :
    part = node ∨ ∃ element ∈ node.parts, isComment element = false ∧ Reaches element part := by
  rcases Relation.ReflTransGen.cases_head reaches with same | ⟨element,asks,later⟩
  · exact .inl same.symm
  · cases asks with
    | inner wraps _ => exact absurd wraps (by simp [Node.Wraps,array])
    | element _ inside said => exact .inr ⟨element,inside,said,later⟩

/-- What holds of the settled types below an expression, and of arrays of such types, holds of its type. -/
theorem typeOf?_induction {holds : String → Prop}
    (settled : ∀ part type, Reaches node part → file.formOf part = .settled (some type) → holds type)
    (array : ∀ elements, (∀ element ∈ elements, holds element) → holds (arrayType elements))
    (found : file.typeOf? node = some type) : holds type := by
  induction size : sizeOf node using Nat.strongRecOn generalizing node type with
  | ind size ih =>
    subst size
    have below {part type} (asks : AsksFor node part) (shown : file.typeOf? part = some type) : holds type :=
      ih _ asks.sizeOf_lt (fun deeper type reaches => settled deeper type (.head asks reaches)) shown rfl
    cases form : file.formOf node with
    | settled shown =>
      rw [SourceFile.typeOf?_of_settled form] at found
      exact settled node type .refl (found ▸ form)
    | wrapping =>
      rw [SourceFile.typeOf?_of_wrapping form] at found
      obtain ⟨first,leads,shown⟩ := Option.bind_eq_some_iff.mp found
      exact below (.inner (SourceFile.wraps_of_form form) leads) shown
    | array =>
      have isArray := SourceFile.array_of_form form
      obtain ⟨elements,all,rfl⟩ := exists_elements isArray found
      apply array
      intro element listed
      obtain ⟨part,kept,shown⟩ := List.mem_map.mp (all ▸ List.mem_map_of_mem listed)
      obtain ⟨inside,said⟩ := List.mem_filter.mp kept
      exact below (.element isArray inside (by simpa using said)) shown

end Reaching

end SourceAtlas.Syntax
