import Mathlib.Logic.Relation
import SourceAtlas.Proofs.Recording

/-! Classification passes through export and ambient statements down to a declaration, and adds nothing
of its own: the declaration gives the same by itself, and wrapping it once more changes nothing. -/
namespace SourceAtlas

open Syntax

-- Kinds of declarations

def methodKinds : List String := ["method_definition","method_signature","abstract_method_signature"]

def Category.kinds : Category → List String
  | .function => methodKinds ++ ["function_declaration","generator_function_declaration",
      "function_signature","function_expression","function","generator_function","arrow_function"]
  | .getter | .setter => methodKinds
  | .property => ["public_field_definition","field_definition"]
  | .interface => ["interface_declaration"]
  | .enumeration => ["enum_declaration"]
  | .classDeclaration => ["class_declaration","abstract_class_declaration","class"]

theorem mem_kinds_of_plain {kind : String} {category : Category}
    (form : declarationForm kind = .plain category) : kind ∈ category.kinds := by
  unfold declarationForm at form
  split at form
  all_goals
    first
    | contradiction
    | cases form; decide

theorem mem_methodKinds {kind : String} (form : declarationForm kind = .method) : kind ∈ methodKinds := by
  unfold declarationForm at form
  split at form
  all_goals
    first
    | contradiction
    | decide

theorem form_of_mem_methodKinds {kind : String} (method : kind ∈ methodKinds) :
    declarationForm kind = .method := by
  simp only [methodKinds,List.mem_cons,List.not_mem_nil,or_false] at method
  rcases method with rfl | rfl | rfl <;> rfl

def HasAccessorToken (node : Node) : Prop :=
  ∃ token ∈ node.children, token.kind = "get" ∨ token.kind = "set"

def NamedConstructor (file : SourceFile) (place : Place) : Prop :=
  ∃ name, place.child? .name = some name ∧ file.text name.node ∈ constructorNames

theorem accessor_of_accessor? {place : Place} {category : Category}
    (found : accessor? place = some category) :
    category.kinds = methodKinds ∧ HasAccessorToken place.node := by
  obtain ⟨token,inside,keyword⟩ := List.exists_of_findSome?_eq_some found
  split at keyword
  · next get =>
    cases keyword
    exact ⟨rfl,token,inside,.inl get⟩
  · next set =>
    cases keyword
    exact ⟨rfl,token,inside,.inr set⟩
  · contradiction

theorem isConstructor_of_named {file : SourceFile} {place : Place} (named : NamedConstructor file place) :
    isConstructor file place = true := by
  obtain ⟨name,found,text⟩ := named
  rw [isConstructor,found]
  exact List.contains_iff_mem.mpr text

-- Steps through statements

/-- From an export statement to its declaration or else to its value, and from an ambient statement to
the first of its parts that is not of another kind. -/
inductive StandsFor (file : SourceFile) : Place → Place → Prop
  | declared {outer inner : Place} (kind : outer.node.kind = "export_statement")
    (inside : outer.child? .declaration = some inner) : StandsFor file outer inner
  | valued {outer inner : Place} (kind : outer.node.kind = "export_statement")
    (undeclared : outer.child? .declaration = none) (inside : outer.child? .value = some inner) :
    StandsFor file outer inner
  | ambient {outer inner : Place} {before after : List Place}
    (kind : outer.node.kind = "ambient_declaration")
    (parted : outer.namedChildren = before ++ inner :: after)
    (passed : ∀ other ∈ before, declaration? file other = none)
    (declares : declaration? file inner ≠ none) : StandsFor file outer inner

/-- A statement put around a place. An ambient one has no other part that declares something. -/
inductive Encloses (file : SourceFile) : Place → Place → Prop
  | declared {outer inner : Place} (kind : outer.node.kind = "export_statement")
    (inside : outer.child? .declaration = some inner) : Encloses file outer inner
  | valued {outer inner : Place} (kind : outer.node.kind = "export_statement")
    (undeclared : outer.child? .declaration = none) (inside : outer.child? .value = some inner) :
    Encloses file outer inner
  | ambient {outer inner : Place} {before after : List Place}
    (kind : outer.node.kind = "ambient_declaration")
    (parted : outer.namedChildren = before ++ inner :: after)
    (others : ∀ other ∈ before ++ after, declaration? file other = none) : Encloses file outer inner

theorem standsFor_of_exported {file : SourceFile} {outer inner : Place}
    (kind : outer.node.kind = "export_statement") (inside : exported? outer = some inner) :
    StandsFor file outer inner := by
  rcases Option.or_eq_some_iff.mp inside with declared | ⟨undeclared,value⟩
  · exact .declared kind declared
  · exact .valued kind undeclared value

theorem declaration?_of_encloses {file : SourceFile} {outer inner : Place}
    (encloses : Encloses file outer inner) : declaration? file outer = declaration? file inner := by
  cases encloses with
  | declared kind inside =>
    apply declaration?_of_exported kind
    rw [exported?,inside]
    rfl
  | valued kind undeclared inside =>
    apply declaration?_of_exported kind
    rw [exported?,undeclared,inside]
    rfl
  | ambient kind parted others =>
    obtain ⟨before,after⟩ := List.forall_mem_append.mp others
    rw [declaration?_of_ambient kind,parted,List.findSome?_append,List.findSome?_cons,
      List.findSome?_eq_none_iff.mpr before,List.findSome?_eq_none_iff.mpr after]
    cases declaration? file inner <;> rfl

theorem declaration?_of_nested {file : SourceFile} {outer inner : Place}
    (nested : Relation.ReflTransGen (Encloses file) outer inner) :
    declaration? file outer = declaration? file inner := by
  induction nested with
  | refl => rfl
  | tail _ step ih => exact ih.trans (declaration?_of_encloses step)

-- What is found at the end

/-- A declaration that is not wrapped, and whose node is of its category. -/
structure Declaration.Bare (file : SourceFile) (declaration : Declaration) : Prop where
  exported : declaration.place.node.kind ≠ "export_statement"
  ambient : declaration.place.node.kind ≠ "ambient_declaration"
  kind : declaration.place.node.kind ∈ declaration.category.kinds
  again : declaration? file declaration.place = some declaration
  constructor : declaration.place.node.kind ∈ methodKinds → NamedConstructor file declaration.place →
    HasAccessorToken declaration.place.node

theorem bare_of_plain {file : SourceFile} {place : Place} {category : Category}
    (form : declarationForm place.node.kind = .plain category) :
    Declaration.Bare file ⟨category,place⟩ where
  exported := by
    intro kind
    cases form.symm.trans (congrArg declarationForm kind)
  ambient := by
    intro kind
    cases form.symm.trans (congrArg declarationForm kind)
  kind := mem_kinds_of_plain form
  again := declaration?_of_plain form
  constructor := by
    intro method
    cases form.symm.trans (form_of_mem_methodKinds method)

theorem bare_of_method {file : SourceFile} {place : Place} {category : Category}
    (form : declarationForm place.node.kind = .method)
    (known : methodCategory? file place = some category) : Declaration.Bare file ⟨category,place⟩ where
  exported := by
    intro kind
    cases form.symm.trans (congrArg declarationForm kind)
  ambient := by
    intro kind
    cases form.symm.trans (congrArg declarationForm kind)
  kind := by
    have method := mem_methodKinds form
    unfold methodCategory? at known
    split at known
    · next found =>
      cases known
      rw [(accessor_of_accessor? found).1]
      exact method
    · split at known
      · contradiction
      · cases known
        exact List.mem_append_left _ method
  again := by
    rw [declaration?_of_method form,known]
    rfl
  constructor := by
    intro _ named
    unfold methodCategory? at known
    split at known
    · next found => exact (accessor_of_accessor? found).2
    · rw [isConstructor_of_named named] at known
      contradiction

theorem reaches_declaration {file : SourceFile} {outer : Place} {found : Declaration}
    (known : declaration? file outer = some found) :
    Relation.ReflTransGen (StandsFor file) outer found.place ∧ found.Bare file := by
  fun_induction declaration? file outer with
  | case1 outer category form =>
    cases known
    exact ⟨.refl,bare_of_plain form⟩
  | case2 outer form =>
    obtain ⟨category,here,rfl⟩ := Option.map_eq_some_iff.mp known
    exact ⟨.refl,bare_of_method form here⟩
  | case3 outer form inner inside ih =>
    obtain ⟨chain,bare⟩ := ih known
    exact ⟨.head (standsFor_of_exported (kind_of_exported form) inside) chain,bare⟩
  | case4 => contradiction
  | case5 outer form ih =>
    obtain ⟨before,inner,after,parted,here,passed⟩ := List.findSome?_eq_some_iff.mp known
    obtain ⟨chain,bare⟩ := ih inner here
    refine ⟨.head ?_ chain,bare⟩
    have children := congrArg (List.map Subtype.val) parted
    rw [List.attach_map_subtype_val,List.map_append,List.map_cons] at children
    apply StandsFor.ambient (kind_of_ambient form) children
    · intro other member
      obtain ⟨part,inside,rfl⟩ := List.mem_map.mp member
      exact passed part inside
    · rw [here]
      exact Option.some_ne_none found
  | case6 => contradiction

-- Classification by nodes alone

/-- A node apart from what it is to the node above it. -/
def Syntax.Node.unplaced (node : Node) : Node := { node with roles := [] }

/-- What a declaration says wherever its node stands. -/
def Declaration.view (declaration : Declaration) : Category × Node :=
  (declaration.category,declaration.place.node.unplaced)

section Views

variable {file : SourceFile} {first second : Place}

theorem methodCategory?_eq (children : first.node.children = second.node.children) :
    methodCategory? file first = methodCategory? file second := by
  have named : (first.child? .name).map (·.node) = (second.child? .name).map (·.node) := by
    rw [Place.map_node_child?,Place.map_node_child?,children]
  have constructors : isConstructor file first = isConstructor file second := by
    unfold isConstructor
    cases here : first.child? .name <;> cases there : second.child? .name <;>
      simp only [here,there,Option.map_some,Option.map_none,Option.some.injEq,reduceCtorEq] at named ⊢
    rw [named]
  rw [methodCategory?,methodCategory?,accessor?,accessor?,children,constructors]

theorem map_node_exported? (place : Place) : (exported? place).map (·.node) =
    (place.node.children.find? fun child => .declaration ∈ child.roles).or
      (place.node.children.find? fun child => .value ∈ child.roles) := by
  rw [exported?,Option.map_or,Place.map_node_child?,Place.map_node_child?]

theorem view_findSome? {places others : List Place}
    (same : places.map (·.node) = others.map (·.node))
    (each : ∀ place ∈ places, ∀ other : Place, place.node = other.node →
      (declaration? file place).map Declaration.view = (declaration? file other).map Declaration.view) :
    (places.findSome? (declaration? file)).map Declaration.view =
      (others.findSome? (declaration? file)).map Declaration.view := by
  induction places generalizing others with
  | nil =>
    rw [List.map_eq_nil_iff.mp same.symm]
  | cons place places ih =>
    obtain ⟨other,rest,rfl,node,later⟩ := List.map_eq_cons_iff.mp same.symm
    obtain ⟨here,below⟩ := List.forall_mem_cons.mp each
    have alike := here other node.symm
    rw [List.findSome?_cons,List.findSome?_cons]
    cases found : declaration? file place with
    | none =>
      rw [found,Option.map_none] at alike
      rw [Option.map_eq_none_iff.mp alike.symm]
      exact ih later.symm below
    | some declaration =>
      rw [found,Option.map_some] at alike
      obtain ⟨declared,there,view⟩ := Option.map_eq_some_iff.mp alike.symm
      rw [there]
      exact congrArg some view.symm

theorem view_declaration? (same : first.node.unplaced = second.node.unplaced) :
    (declaration? file first).map Declaration.view = (declaration? file second).map Declaration.view := by
  induction size : sizeOf first.node using Nat.strongRecOn generalizing first second with
  | ind size ih =>
    subst size
    have kind : first.node.unplaced.kind = second.node.unplaced.kind := congrArg Node.kind same
    have children : first.node.unplaced.children = second.node.unplaced.children :=
      congrArg Node.children same
    change first.node.kind = second.node.kind at kind
    change first.node.children = second.node.children at children
    cases form : declarationForm first.node.kind with
    | plain category =>
      rw [declaration?_of_plain form,declaration?_of_plain (kind ▸ form)]
      exact congrArg (fun node => some (category,node)) same
    | method =>
      rw [declaration?_of_method form,declaration?_of_method (kind ▸ form),methodCategory?_eq children]
      cases methodCategory? file second with
      | none => rfl
      | some category => exact congrArg (fun node => some (category,node)) same
    | exported =>
      have statement := kind_of_exported form
      have parts : (exported? first).map (·.node) = (exported? second).map (·.node) := by
        rw [map_node_exported?,map_node_exported?,children]
      cases inside : exported? first with
      | none =>
        rw [inside,Option.map_none] at parts
        have nothing := Option.map_eq_none_iff.mp parts.symm
        rw [declaration?_of_nothing statement inside,declaration?_of_nothing (kind ▸ statement) nothing]
      | some inner =>
        rw [inside,Option.map_some] at parts
        obtain ⟨other,there,node⟩ := Option.map_eq_some_iff.mp parts.symm
        rw [declaration?_of_exported statement inside,declaration?_of_exported (kind ▸ statement) there]
        exact ih _ (sizeOf_lt_of_exported? inside) (congrArg Node.unplaced node.symm) rfl
    | ambient =>
      have statement := kind_of_ambient form
      rw [declaration?_of_ambient statement,declaration?_of_ambient (kind ▸ statement)]
      apply view_findSome?
      · rw [Place.map_node_namedChildren,Place.map_node_namedChildren,children]
      · intro place inside other node
        exact ih _ (Place.sizeOf_lt_of_mem_namedChildren inside) (congrArg Node.unplaced node) rfl
    | none =>
      rw [declaration?_of_other form,declaration?_of_other (kind ▸ form)]

end Views

/-- What a place is classified as is reached from it through export and ambient statements, is no such
statement itself, has a kind of its category, and is classified as itself. A method with the name of the
constructor is found only as an accessor. Conversely statements around a place leave its declaration as
it is, in the same tree and, but for its place in the tree, in any other. -/
theorem declaration?_unwraps (file : SourceFile) :
    (∀ (outer : Place) (found : Declaration), declaration? file outer = some found →
      Relation.ReflTransGen (StandsFor file) outer found.place ∧ found.Bare file) ∧
    (∀ outer inner : Place, Relation.ReflTransGen (Encloses file) outer inner →
      declaration? file outer = declaration? file inner) ∧
    ∀ outer inner declared : Place, Relation.ReflTransGen (Encloses file) outer inner →
      inner.node.unplaced = declared.node.unplaced →
      (declaration? file outer).map Declaration.view = (declaration? file declared).map Declaration.view := by
  refine ⟨?_,?_,?_⟩
  · intro outer found known
    exact reaches_declaration known
  · intro outer inner nested
    exact declaration?_of_nested nested
  · intro outer inner declared nested same
    rw [declaration?_of_nested nested]
    exact view_declaration? same

-- An exported ambient class with an accessor that has the name of the constructor

def ambientClassTree : Node :=
  ⟨"program",true,0,52,[],[⟨"export_statement",true,0,52,[],[⟨"export",false,0,6,[],[]⟩,
    ⟨"ambient_declaration",true,7,52,[.declaration],[⟨"declare",false,7,14,[],[]⟩,
      ⟨"comment",true,15,22,[],[]⟩,
      ⟨"class_declaration",true,23,52,[],[⟨"class",false,23,28,[],[]⟩,
        ⟨"type_identifier",true,29,30,[.name],[]⟩,
        ⟨"class_body",true,31,52,[.body],[⟨"\x7b",false,31,32,[],[]⟩,
          ⟨"method_signature",true,33,50,[],[⟨"get",false,33,36,[],[]⟩,
            ⟨"property_identifier",true,37,48,[.name],[]⟩,
            ⟨"formal_parameters",true,48,50,[.parameters],
              [⟨"(",false,48,49,[],[]⟩,⟨")",false,49,50,[],[]⟩]⟩]⟩,
          ⟨"\x7d",false,51,52,[],[]⟩]⟩]⟩]⟩]⟩]⟩

def ambientClassFile : SourceFile :=
  ⟨⟨"a.ts"⟩,Utf8.encode "export declare /* c */ class A \x7b get constructor() \x7d".toList,ambientClassTree⟩

def lastPart (place : Place) : Place := place.namedChildren.getLast?.getD place

/-- The export statement, the ambient statement, the class, its body and the accessor, at depths 1 to 5. -/
def ambientClassPlace (depth : Nat) : Place := Nat.repeat lastPart depth ambientClassFile.root

theorem ambientClass_enclosed : Encloses ambientClassFile (ambientClassPlace 1) (ambientClassPlace 2) ∧
    Encloses ambientClassFile (ambientClassPlace 2) (ambientClassPlace 3) := by
  refine ⟨.declared rfl rfl,?_⟩
  have parted : (ambientClassPlace 2).namedChildren =
      [(ambientClassPlace 2).namedChildren.headD (ambientClassPlace 2)] ++ ambientClassPlace 3 :: [] := rfl
  apply Encloses.ambient rfl parted
  intro other inside
  cases List.mem_singleton.mp inside
  exact declaration?_of_other rfl

theorem ambientClass_getter : declaration? ambientClassFile (ambientClassPlace 5) =
    some ⟨.getter,ambientClassPlace 5⟩ := declaration?_of_method rfl

theorem ambientClass_named : NamedConstructor ambientClassFile (ambientClassPlace 5) := by
  have text : (ambientClassPlace 5).namedChildren.head?.map (fun name => ambientClassFile.text name.node) =
      some "constructor" := by decide +kernel
  obtain ⟨name,first,said⟩ := Option.map_eq_some_iff.mp text
  refine ⟨name,?_,?_⟩
  · rw [← first]
    rfl
  · rw [said]
    decide

theorem declaration?_unwraps_ambientClass :
    declaration? ambientClassFile (ambientClassPlace 1) = some ⟨.classDeclaration,ambientClassPlace 3⟩ ∧
    Relation.ReflTransGen (StandsFor ambientClassFile) (ambientClassPlace 1) (ambientClassPlace 3) ∧
    declaration? ambientClassFile (ambientClassPlace 1) = declaration? ambientClassFile (ambientClassPlace 3) ∧
    (declaration? ambientClassFile (ambientClassPlace 1)).map Declaration.view =
      (declaration? ambientClassFile (.root (ambientClassPlace 3).node)).map Declaration.view ∧
    (ambientClassPlace 5).node.kind ∈ methodKinds ∧
    NamedConstructor ambientClassFile (ambientClassPlace 5) ∧
    HasAccessorToken (ambientClassPlace 5).node := by
  obtain ⟨down,up,anywhere⟩ := declaration?_unwraps ambientClassFile
  have nested : Relation.ReflTransGen (Encloses ambientClassFile) (ambientClassPlace 1) (ambientClassPlace 3) :=
    .head ambientClass_enclosed.1 (.single ambientClass_enclosed.2)
  have known : declaration? ambientClassFile (ambientClassPlace 1) =
      some ⟨.classDeclaration,ambientClassPlace 3⟩ := by
    rw [up _ _ nested]
    exact declaration?_of_plain rfl
  have method : (ambientClassPlace 5).node.kind ∈ methodKinds := by decide
  have bare := (down _ _ ambientClass_getter).2
  exact ⟨known,(down _ _ known).1,up _ _ nested,anywhere _ _ _ nested rfl,method,ambientClass_named,
    bare.constructor method ambientClass_named⟩

end SourceAtlas
