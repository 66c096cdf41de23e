import SourceAtlas.Declaration.Reader
import SourceAtlas.Proofs.ExpressionType
import SourceAtlas.Proofs.OneLine

/-! Types on one line. All texts in a type are brought to one line, but for the name of a constructor. -/
namespace SourceAtlas.Syntax

open Text

variable {file : SourceFile} {node part : Node} {type : String}

theorem oneLine_arrayType {elements : List String} (each : ∀ element ∈ elements, OneLine element.toList) :
    OneLine (arrayType elements).toList := by
  have once : ∀ element ∈ elements.eraseDups, OneLine element.toList :=
    fun element inside => each element (List.mem_eraseDups.mp inside)
  have brackets : OneLine "[]".toList := .of_solid (by decide) (by decide)
  unfold arrayType
  split
  · exact .of_solid (by decide) (by decide)
  · next element one =>
    rw [String.toList_append]
    exact (once element (one ▸ List.mem_singleton_self element)).append brackets
  · next nonempty _ =>
    have joined : OneLine (" | ".intercalate elements.eraseDups).toList := by
      rw [String.toList_intercalate]
      apply oneLine_intercalate
      · intro none
        exact nonempty (List.map_eq_nil_iff.mp none)
      · intro piece inside
        obtain ⟨element,listed,rfl⟩ := List.mem_map.mp inside
        exact once element listed
    have opening : OneLine "(".toList := .of_solid (by decide) (by decide)
    have closing : OneLine ")[]".toList := .of_solid (by decide) (by decide)
    rw [String.toList_append,String.toList_append]
    exact (opening.append joined).append closing

theorem exists_broken_element {elements : List String} (broken : Broken (arrayType elements).toList) :
    ∃ element ∈ elements, Broken element.toList := by
  suffices once : ∃ element ∈ elements.eraseDups, Broken element.toList by
    obtain ⟨element,listed,broken⟩ := once
    exact ⟨element,List.mem_eraseDups.mp listed,broken⟩
  have brackets : OneLine "[]".toList := .of_solid (by decide) (by decide)
  unfold arrayType at broken
  split at broken
  · exact absurd broken (OneLine.of_solid (by decide) (by decide)).unbroken
  · next element one =>
    rw [String.toList_append] at broken
    have within := (broken_append.mp broken).resolve_right brackets.unbroken
    exact ⟨element,one ▸ List.mem_singleton_self element,within⟩
  · have opening : OneLine "(".toList := .of_solid (by decide) (by decide)
    have closing : OneLine ")[]".toList := .of_solid (by decide) (by decide)
    rw [String.toList_append,String.toList_append] at broken
    have front := (broken_append.mp broken).resolve_right closing.unbroken
    have joined := (broken_append.mp front).resolve_left opening.unbroken
    rw [String.toList_intercalate] at joined
    obtain ⟨piece,listed,within⟩ := exists_broken_piece joined
    obtain ⟨element,once,rfl⟩ := List.mem_map.mp listed
    exact ⟨element,once,within⟩

theorem oneLine_lineText (nonempty : file.lineText node ≠ "") : OneLine (file.lineText node).toList := by
  rw [SourceFile.lineText,String.toList_ofList]
  apply oneLine_oneLine
  intro empty
  apply nonempty
  rw [SourceFile.lineText,empty]

theorem oneLine_typeText? {place : Place} (stated : file.typeText? place = some type) : OneLine type.toList := by
  obtain ⟨shown,nonempty⟩ := Option.filter_eq_some_iff.mp stated
  obtain ⟨carried,_,rfl⟩ := Option.map_eq_some_iff.mp shown
  exact oneLine_lineText (of_decide_eq_true nonempty)

theorem oneLine_literalType? {kind : String} (known : literalType? kind = some type) : OneLine type.toList := by
  unfold literalType? at known
  split at known <;> cases known
  all_goals exact .of_solid (by decide) (by decide)

theorem oneLine_operatorType? {operator : String} (known : operatorType? operator = some type) :
    OneLine type.toList := by
  unfold operatorType? at known
  split at known <;> cases known
  all_goals exact .of_solid (by decide) (by decide)

/-- An expression that makes an object, and what names its class. -/
structure Node.Constructs (node constructor : Node) : Prop where
  kind : node.kind = "new_expression"
  names : node.part? .constructor = some constructor

/-- A constructed type is the name of the class with the type arguments, which are on one line. -/
theorem constructedType?_eq_some (built : file.constructedType? (.root node) = some type) :
    ∃ constructor arguments, node.part? .constructor = some constructor ∧
      type = file.text constructor ++ arguments ∧ (arguments = "" ∨ OneLine arguments.toList) := by
  rw [SourceFile.constructedType?_eq,Option.map_map] at built
  obtain ⟨constructor,names,rfl⟩ := Option.map_eq_some_iff.mp built
  refine ⟨constructor,_,names,rfl,?_⟩
  cases (Place.root node).node.part? .typeArguments with
  | none => exact .inl rfl
  | some arguments =>
    by_cases empty : file.lineText arguments = ""
    · exact .inl empty
    · exact .inr (oneLine_lineText empty)

/-- A settled type is on one line, unless it is the name of a class with its type arguments. -/
theorem settled_cases (form : file.formOf node = .settled (some type)) : OneLine type.toList ∨
    ∃ constructor arguments, node.Constructs constructor ∧ type = file.text constructor ++ arguments ∧
      (arguments = "" ∨ OneLine arguments.toList) := by
  generalize shown : ExpressionForm.settled (some type) = settled at form
  cases form ▸ SourceFile.shows_formOf file node with
  | literal known =>
    cases shown
    exact .inl (oneLine_literalType? known)
  | wrapping => cases shown
  | cast _ _ => exact .inl (oneLine_typeText? (ExpressionForm.settled.inj shown).symm)
  | constructed kind =>
    obtain ⟨constructor,arguments,names,built⟩ :=
      constructedType?_eq_some (ExpressionForm.settled.inj shown).symm
    exact .inr ⟨constructor,arguments,⟨kind,names⟩,built⟩
  | operated _ =>
    obtain ⟨_,_,known⟩ := Option.bind_eq_some_iff.mp (ExpressionForm.settled.inj shown).symm
    exact .inl (oneLine_operatorType? known)
  | array => cases shown
  | unknown => cases shown

theorem typeOf?_of_constructs {constructor : Node} (builds : node.Constructs constructor)
    (found : file.typeOf? node = some type) : ∃ arguments, type = file.text constructor ++ arguments := by
  have form : file.formOf node = .settled (file.constructedType? (.root node)) := by
    rw [SourceFile.formOf,SourceFile.expressionForm,Place.root,builds.kind]
    rfl
  rw [SourceFile.typeOf?_of_settled form] at found
  obtain ⟨named,arguments,names,built,_⟩ := constructedType?_eq_some found
  cases names.symm.trans builds.names
  exact ⟨arguments,built⟩

theorem oneLine_typeOf? (found : file.typeOf? node = some type)
    (clean : ∀ part constructor, Reaches node part → part.Constructs constructor →
      OneLine (file.text constructor).toList) : OneLine type.toList := by
  apply typeOf?_induction _ _ found
  · intro part shown reaches form
    rcases settled_cases form with line | ⟨constructor,arguments,builds,rfl,line⟩
    · exact line
    · have name := clean part constructor reaches builds
      rw [String.toList_append]
      rcases line with rfl | line
      · simpa using name
      · exact name.append line
  · exact fun elements => oneLine_arrayType

theorem broken_typeOf?_iff (found : file.typeOf? node = some type) : Broken type.toList ↔
    ∃ part constructor, Reaches node part ∧ part.Constructs constructor ∧
      Broken (file.text constructor).toList := by
  constructor
  · apply typeOf?_induction _ _ found
    · intro part shown reaches form broken
      rcases settled_cases form with line | ⟨constructor,arguments,builds,rfl,line⟩
      · exact absurd broken line.unbroken
      · rw [String.toList_append] at broken
        rcases broken_append.mp broken with name | rest
        · exact ⟨part,constructor,reaches,builds,name⟩
        · rcases line with rfl | line
          · obtain ⟨c,inside,_⟩ := rest
            exact absurd inside List.not_mem_nil
          · exact absurd rest line.unbroken
    · intro elements each broken
      obtain ⟨element,listed,within⟩ := exists_broken_element broken
      exact each element listed within
  · rintro ⟨part,constructor,reaches,builds,broken⟩
    obtain ⟨inner,shown,within⟩ := Reaches.exists_type reaches found
    obtain ⟨arguments,rfl⟩ := typeOf?_of_constructs builds shown
    apply Broken.infix _ within
    rw [String.toList_append]
    exact broken_append.mpr (.inl broken)

end SourceAtlas.Syntax

-- What a reader gives

namespace SourceAtlas

open Syntax Text

/-- What names a class where inference asks for the type of a declaration. -/
def Syntax.Place.Names (declaration : Place) (constructor : Node) : Prop :=
  ∃ value part, declaration.child? .value = some value ∧ Reaches value.node part ∧ part.Constructs constructor

/-- Stated types are on one line. Inferred ones are if the names of classes in them are, and are broken
exactly if one of these is. -/
theorem types_oneLine (file : SourceFile) :
    (∀ (place : Place) (type : String), Reader.syntactic.statedType? file place = some type →
      OneLine type.toList) ∧
    ∀ (declaration : Place) (type : String), Reader.syntactic.inferredType? file declaration = some type →
      ((∀ constructor, declaration.Names constructor → OneLine (file.text constructor).toList) →
        OneLine type.toList) ∧
      (Broken type.toList ↔
        ∃ constructor, declaration.Names constructor ∧ Broken (file.text constructor).toList) := by
  refine ⟨fun _ _ => oneLine_typeText?,fun declaration type inferred => ?_⟩
  cases found : declaration.child? .value with
  | none =>
    change file.inferredType? declaration = some type at inferred
    rw [SourceFile.inferredType?,found] at inferred
    cases inferred
    have line : OneLine anyType.toList := .of_solid (by decide) (by decide)
    refine ⟨fun _ => line,fun broken => absurd broken line.unbroken,?_⟩
    rintro ⟨constructor,⟨value,_,there,_⟩,_⟩
    cases found.symm.trans there
  | some value =>
    have shown : file.typeOf? value.node = some type := (SourceFile.inferredType?_eq found).symm.trans inferred
    refine ⟨fun clean => ?_,?_⟩
    · apply oneLine_typeOf? shown
      intro part constructor reaches builds
      exact clean constructor ⟨value,part,found,reaches,builds⟩
    · rw [broken_typeOf?_iff shown]
      constructor
      · rintro ⟨part,constructor,reaches,builds,broken⟩
        exact ⟨constructor,⟨value,part,found,reaches,builds⟩,broken⟩
      · rintro ⟨constructor,⟨other,part,there,reaches,builds⟩,broken⟩
        cases found.symm.trans there
        exact ⟨part,constructor,reaches,builds,broken⟩

def brokenTree : Node :=
  ⟨"program",true,0,58,[],[⟨"class_declaration",true,0,58,[],[⟨"class",false,0,5,[],[]⟩,
    ⟨"type_identifier",true,6,7,[.name],[]⟩,
    ⟨"class_body",true,8,58,[.body],[⟨"\x7b",false,8,9,[],[]⟩,
      ⟨"public_field_definition",true,10,31,[],[⟨"property_identifier",true,10,11,[.name],[]⟩,
        ⟨"=",false,12,13,[],[]⟩,
        ⟨"new_expression",true,14,31,[.value],[⟨"new",false,14,17,[],[]⟩,
          ⟨"parenthesized_expression",true,18,29,[.constructor],[⟨"(",false,18,19,[],[]⟩,
            ⟨"class",true,19,28,[],[⟨"class",false,19,24,[],[]⟩,
              ⟨"class_body",true,25,28,[.body],[⟨"\x7b",false,25,26,[],[]⟩,
                ⟨"\x7d",false,27,28,[],[]⟩]⟩]⟩,
            ⟨")",false,28,29,[],[]⟩]⟩,
          ⟨"arguments",true,29,31,[],[⟨"(",false,29,30,[],[]⟩,⟨")",false,30,31,[],[]⟩]⟩]⟩]⟩,
      ⟨";",false,31,32,[],[]⟩,
      ⟨"public_field_definition",true,33,55,[],[⟨"property_identifier",true,33,34,[.name],[]⟩,
        ⟨"=",false,35,36,[],[]⟩,
        ⟨"array",true,37,55,[.value],[⟨"[",false,37,38,[],[]⟩,
          ⟨"new_expression",true,38,51,[],[⟨"new",false,38,41,[],[]⟩,
            ⟨"identifier",true,42,43,[.constructor],[]⟩,
            ⟨"type_arguments",true,43,49,[.typeArguments],[⟨"<",false,43,44,[],[]⟩,
              ⟨"type_identifier",true,44,45,[],[]⟩,⟨",",false,45,46,[],[]⟩,
              ⟨"type_identifier",true,47,48,[],[]⟩,⟨">",false,48,49,[],[]⟩]⟩,
            ⟨"arguments",true,49,51,[],[⟨"(",false,49,50,[],[]⟩,⟨")",false,50,51,[],[]⟩]⟩]⟩,
          ⟨",",false,51,52,[],[]⟩,⟨"number",true,53,54,[],[]⟩,⟨"]",false,54,55,[],[]⟩]⟩]⟩,
      ⟨";",false,55,56,[],[]⟩,⟨"\x7d",false,57,58,[],[]⟩]⟩]⟩]⟩

def brokenFile : SourceFile :=
  ⟨⟨"a.ts"⟩,Utf8.encode
    "class A \x7b a = new (class \x7b\n\x7d)(); b = [new B<C,\nD>(), 1]; \x7d".toList,brokenTree⟩

/-- A field of the class: one with a class that is broken, and one whose type arguments are. -/
def brokenMember (index : Nat) : Place := brokenFile.root.descend [0,1,index]

def brokenValue (index : Nat) : Place := (brokenMember index).descend [1]

def brokenConstructed : Node := ((brokenValue 1).descend [0]).node

theorem broken_class : brokenFile.typeOf? (brokenValue 0).node = some "(class \x7b\n\x7d)" := by
  have built : brokenFile.constructedType? (.root (brokenValue 0).node) = some "(class \x7b\n\x7d)" := by
    decide +kernel
  exact (SourceFile.typeOf?_of_settled rfl).trans built

theorem broken_arguments : brokenFile.typeOf? brokenConstructed = some "B<C, D>" := by
  have built : brokenFile.constructedType? (.root brokenConstructed) = some "B<C, D>" := by decide +kernel
  exact (SourceFile.typeOf?_of_settled rfl).trans built

theorem broken_array : brokenFile.typeOf? (brokenValue 1).node = some "(B<C, D> | number)[]" := by
  have number : brokenFile.typeOf? ⟨"number",true,53,54,[],[]⟩ = some "number" :=
    SourceFile.typeOf?_of_settled rfl
  have elements : ((brokenValue 1).node.parts.filter fun element => !isComment element) =
    [brokenConstructed,⟨"number",true,53,54,[],[]⟩] := rfl
  have all : [brokenConstructed,⟨"number",true,53,54,[],[]⟩].mapM brokenFile.typeOf? =
      some ["B<C, D>","number"] := by
    apply mapM_eq_some_iff.mpr
    simp only [List.map_cons,List.map_nil,broken_arguments,number]
  rw [SourceFile.typeOf?_of_array (SourceFile.form_of_array rfl),elements,all]
  decide +kernel

theorem broken_names {constructor : Node} (names : (brokenMember 1).Names constructor) :
    constructor = ⟨"identifier",true,42,43,[.constructor],[]⟩ := by
  obtain ⟨value,part,found,reaches,builds⟩ := names
  have there : (brokenMember 1).child? .value = some (brokenValue 1) := rfl
  cases found.symm.trans there
  have elements : (brokenValue 1).node.parts = [brokenConstructed,⟨"number",true,53,54,[],[]⟩] := rfl
  rcases Reaches.of_array rfl reaches with rfl | ⟨element,inside,_,later⟩
  · exact absurd builds.kind (by decide)
  · rw [elements] at inside
    rcases List.mem_pair.mp inside with rfl | rfl
    · have form : brokenFile.formOf brokenConstructed =
          .settled (brokenFile.constructedType? (.root brokenConstructed)) := rfl
      cases Reaches.eq_of_settled form later
      cases builds.names
      rfl
    · have form : brokenFile.formOf ⟨"number",true,53,54,[],[]⟩ = .settled (some "number") := rfl
      cases Reaches.eq_of_settled form later
      exact absurd builds.kind (by decide)

theorem inferredType?_broken :
    Reader.syntactic.inferredType? brokenFile (brokenMember 0) = some "(class \x7b\n\x7d)" ∧
    Reader.syntactic.inferredType? brokenFile (brokenMember 1) = some "(B<C, D> | number)[]" := by
  have first : (brokenMember 0).child? .value = some (brokenValue 0) := rfl
  have second : (brokenMember 1).child? .value = some (brokenValue 1) := rfl
  exact ⟨(SourceFile.inferredType?_eq first).trans broken_class,
    (SourceFile.inferredType?_eq second).trans broken_array⟩

theorem types_oneLine_broken :
    (Reader.syntactic.statedType? brokenFile ((brokenValue 0).descend [0,0,0]) = some "\x7b \x7d" ∧
      OneLine "\x7b \x7d".toList) ∧
    (Reader.syntactic.inferredType? brokenFile (brokenMember 1) = some "(B<C, D> | number)[]" ∧
      (∀ constructor, (brokenMember 1).Names constructor → OneLine (brokenFile.text constructor).toList) ∧
      OneLine "(B<C, D> | number)[]".toList) ∧
    Reader.syntactic.inferredType? brokenFile (brokenMember 0) = some "(class \x7b\n\x7d)" ∧
      Broken "(class \x7b\n\x7d)".toList ∧
      ∃ constructor, (brokenMember 0).Names constructor ∧ Broken (brokenFile.text constructor).toList := by
  obtain ⟨stated,inferred⟩ := types_oneLine brokenFile
  have body : Reader.syntactic.statedType? brokenFile ((brokenValue 0).descend [0,0,0]) =
      some "\x7b \x7d" := by
    have shown : brokenFile.typeText? ((brokenValue 0).descend [0,0,0]) = some "\x7b \x7d" := by
      decide +kernel
    exact shown
  have name : brokenFile.text ⟨"identifier",true,42,43,[.constructor],[]⟩ = "B" := by decide +kernel
  have clean (constructor : Node) (names : (brokenMember 1).Names constructor) :
      OneLine (brokenFile.text constructor).toList := by
    rw [broken_names names,name]
    exact .of_solid (by decide) (by decide)
  have broken : Broken "(class \x7b\n\x7d)".toList := ⟨'\n',by decide,by decide,by decide⟩
  obtain ⟨first,second⟩ := inferredType?_broken
  exact ⟨⟨body,stated _ _ body⟩,⟨second,clean,(inferred _ _ second).1 clean⟩,first,broken,
    (inferred _ _ first).2.mp broken⟩

/-- A type can take more than one line. -/
theorem types_not_oneLine :
    Reader.syntactic.inferredType? brokenFile (brokenMember 0) = some "(class \x7b\n\x7d)" ∧
    ¬∀ (file : SourceFile) (declaration : Place) (type : String),
      Reader.syntactic.inferredType? file declaration = some type → OneLine type.toList := by
  obtain ⟨first,_⟩ := inferredType?_broken
  refine ⟨first,fun claimed => ?_⟩
  have line := claimed brokenFile (brokenMember 0) _ first
  exact line.unbroken ⟨'\n',by decide,by decide,by decide⟩

end SourceAtlas
