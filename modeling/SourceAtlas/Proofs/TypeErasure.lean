import SourceAtlas.Proofs.FirstFault
import SourceAtlas.Proofs.Recording

/-! Types and the shape of records. Readers that print a file alike and read its documentation alike
record the same declarations of it, or refuse it for the same fault, whatever types they know. -/
namespace SourceAtlas

open Syntax

-- Records without their types

def PropertyRecord.withoutType (record : PropertyRecord) : PropertyRecord := { record with type := none }

def FunctionRecord.withoutTypes (record : FunctionRecord) : FunctionRecord :=
  { record with parameters := record.parameters.map PropertyRecord.withoutType, returnType := "" }

def InterfaceRecord.withoutTypes (record : InterfaceRecord) : InterfaceRecord :=
  { record with properties := record.properties.map PropertyRecord.withoutType }

def ClassRecord.withoutTypes (record : ClassRecord) : ClassRecord :=
  { record with
    functions := record.functions.map FunctionRecord.withoutTypes
    properties := record.properties.map PropertyRecord.withoutType
    interfaces := record.interfaces.map InterfaceRecord.withoutTypes }

def ModuleRecord.withoutTypes (record : ModuleRecord) : ModuleRecord :=
  { record with
    classes := record.classes.map ClassRecord.withoutTypes
    functions := record.functions.map FunctionRecord.withoutTypes
    interfaces := record.interfaces.map InterfaceRecord.withoutTypes }

def Member.withoutTypes : Member → Member
  | .function record => .function record.withoutTypes
  | .property record => .property record.withoutType
  | .interface record => .interface record.withoutTypes
  | .enumeration record => .enumeration record
  | .classDeclaration record => .classDeclaration record.withoutTypes

theorem ClassRecord.append_withoutTypes (record : ClassRecord) (member : Member) :
    (record.append member).withoutTypes = record.withoutTypes.append member.withoutTypes := by
  cases member <;> simp [append,withoutTypes,Member.withoutTypes]

theorem ModuleRecord.append_withoutTypes (record : ModuleRecord) (member : Member) :
    (record.append member).withoutTypes = record.withoutTypes.append member.withoutTypes := by
  cases member <;> simp [append,withoutTypes,Member.withoutTypes]

-- Outcomes that look alike

section Outcomes

variable {ε α β γ δ : Type}

/-- The same fault twice, or two results of which a view shows the same. -/
inductive Alike (view : α → β) : Except ε α → Except ε α → Prop
  | ok {first second : α} (same : view first = view second) : Alike view (.ok first) (.ok second)
  | error (fault : ε) : Alike view (.error fault) (.error fault)

theorem Alike.refl (view : α → β) (outcome : Except ε α) : Alike view outcome outcome := by
  cases outcome with
  | ok value => exact .ok rfl
  | error fault => exact .error fault

theorem Alike.bind {view : α → β} {after : γ → δ} {first second : Except ε α}
    {next other : α → Except ε γ} (alike : Alike view first second)
    (later : ∀ a b, view a = view b → Alike after (next a) (other b)) :
    Alike after (first >>= next) (second >>= other) := by
  cases alike with
  | ok same => exact later _ _ same
  | error fault => exact .error fault

theorem Alike.bindSame {after : γ → δ} {next other : α → Except ε γ} (outcome : Except ε α)
    (later : ∀ value, Alike after (next value) (other value)) :
    Alike after (outcome >>= next) (outcome >>= other) := by
  apply (Alike.refl id outcome).bind
  rintro value _ rfl
  exact later value

theorem Alike.mapM {view : α → β} {step other : γ → Except ε α} {items : List γ}
    (each : ∀ item ∈ items, Alike view (step item) (other item)) :
    Alike (List.map view) (items.mapM step) (items.mapM other) := by
  induction items with
  | nil => exact .refl _ (.ok [])
  | cons item items ih =>
    obtain ⟨here,later⟩ := List.forall_mem_cons.mp each
    rw [List.mapM_cons,List.mapM_cons]
    apply here.bind
    intro a b same
    apply (ih later).bind
    intro rest others sameRest
    apply Alike.ok
    rw [List.map_cons,List.map_cons,same,sameRest]

end Outcomes

theorem foldl_view {α β γ : Type} {view : α → β} {viewItem : γ → γ} {step : α → γ → α}
    {stepView : β → γ → β}
    (commutes : ∀ record item, view (step record item) = stepView (view record) (viewItem item))
    {first second : List (Option γ)} (same : first.map (Option.map viewItem) = second.map (Option.map viewItem))
    (start : α) : view ((first.filterMap id).foldl step start) = view ((second.filterMap id).foldl step start) := by
  have viewed (items : List (Option γ)) : view ((items.filterMap id).foldl step start) =
      ((items.map (Option.map viewItem)).filterMap id).foldl stepView (view start) := by
    have kept : (items.map (Option.map viewItem)).filterMap id = (items.filterMap id).map viewItem := by
      rw [List.filterMap_map,List.map_filterMap]
      rfl
    rw [kept,List.foldl_map]
    refine (List.foldl_hom view ?_).symm
    intro record item
    exact (commutes record item).symm
  rw [viewed,viewed,same]

namespace Reader

/-- Two readers that differ at most in the types that they know of a file. -/
structure AgreeApartFromTypes (first second : Reader) (file : SourceFile) : Prop where
  print : ∀ comments place, first.print comments file place = second.print comments file place
  documentation : ∀ place, first.documentation file place = second.documentation file place

variable {first second : Reader} {file : SourceFile}

-- Declarations

theorem property_alike (place : Place) :
    Alike PropertyRecord.withoutType (first.property file place) (second.property file place) := by
  apply Alike.bindSame
  intro name
  cases place.child? .type with
  | none => exact .ok rfl
  | some annotation => exact .ok rfl

theorem parameter_alike (place : Place) :
    Alike PropertyRecord.withoutType (first.parameter file place) (second.parameter file place) := by
  unfold parameter
  cases place.child? .pattern with
  | none => exact .refl _ (Fault.malformed file place .parameterName)
  | some pattern => exact .ok rfl

theorem parameters_alike (place : Place) : Alike (List.map PropertyRecord.withoutType)
    (first.parameters file place) (second.parameters file place) := by
  unfold parameters
  cases place.child? .parameter with
  | some bare => exact .ok rfl
  | none =>
    cases place.child? .parameters with
    | none => exact .ok rfl
    | some list => exact .mapM fun part _ => parameter_alike part

theorem signature_alike (category : Category) (place : Place) :
    Alike (fun taken => taken.1.map PropertyRecord.withoutType)
      (first.signature file category place) (second.signature file category place) := by
  cases category with
  | getter => exact .ok rfl
  | _ => exact (parameters_alike place).bind fun _ _ same => .ok same

theorem documentation?_eq (agree : AgreeApartFromTypes first second file) (place : Place) :
    first.documentation? file place = second.documentation? file place := by
  rw [documentation?,documentation?,agree.documentation]

theorem function_alike (agree : AgreeApartFromTypes first second file) (category : Category) (place : Place) :
    Alike (Option.map FunctionRecord.withoutTypes)
      (first.function? file category place) (second.function? file category place) := by
  unfold function?
  cases declaredName? file place with
  | none => exact .ok rfl
  | some name =>
    dsimp only
    rw [agree.print,documentation?_eq agree]
    apply Alike.bindSame
    intro content
    apply (signature_alike category place).bind
    rintro ⟨taken,_⟩ ⟨others,_⟩ same
    have parameters : taken.map PropertyRecord.withoutType = others.map PropertyRecord.withoutType := same
    apply Alike.ok
    simp only [Option.map_some,FunctionRecord.withoutTypes,parameters]

theorem propertySignature_alike (place : Place) : Alike PropertyRecord.withoutType
    (first.propertySignature file place) (second.propertySignature file place) :=
  .bindSame _ fun _ => .ok rfl

theorem interface_alike (agree : AgreeApartFromTypes first second file) (place : Place) :
    Alike InterfaceRecord.withoutTypes (first.interface file place) (second.interface file place) := by
  unfold interface
  rw [documentation?_eq agree]
  apply Alike.bindSame
  intro name
  apply Alike.bindSame
  intro body
  apply (Alike.mapM fun part _ => propertySignature_alike part).bind
  intro properties others same
  apply Alike.ok
  simp only [InterfaceRecord.withoutTypes,same]

theorem enumeration_eq (agree : AgreeApartFromTypes first second file) (place : Place) :
    first.enumeration file place = second.enumeration file place := by
  unfold enumeration
  rw [documentation?_eq agree]

-- Members, classes and files

theorem classRecord_alike {place : Place} (each : ∀ member ∈ classMembers place,
    Alike (Option.map Member.withoutTypes) (first.member? file member) (second.member? file member)) :
    Alike ClassRecord.withoutTypes (first.classRecord file place) (second.classRecord file place) := by
  rw [classRecord_eq,classRecord_eq]
  apply (Alike.mapM each).bind
  intro members others same
  exact .ok (foldl_view ClassRecord.append_withoutTypes same _)

theorem declared_alike (agree : AgreeApartFromTypes first second file) {declaration : Declaration}
    (classes : declaration.category = .classDeclaration →
      Alike ClassRecord.withoutTypes (first.classRecord file declaration.place)
        (second.classRecord file declaration.place)) :
    Alike (Option.map Member.withoutTypes)
      (first.declared? file declaration) (second.declared? file declaration) := by
  obtain ⟨category,place⟩ := declaration
  cases category with
  | property => exact (property_alike place).bind fun _ _ same => .ok (congrArg (some ∘ Member.property) same)
  | interface => exact (interface_alike agree place).bind fun _ _ same => .ok (congrArg (some ∘ Member.interface) same)
  | enumeration =>
    rw [declared?,declared?,enumeration_eq agree]
    exact .refl _ _
  | classDeclaration => exact (classes rfl).bind fun _ _ same => .ok (congrArg (some ∘ Member.classDeclaration) same)
  | _ =>
    apply (function_alike agree _ place).bind
    intro record other same
    apply Alike.ok
    have shape : Member.withoutTypes ∘ Member.function = Member.function ∘ FunctionRecord.withoutTypes := rfl
    rw [Option.map_map,Option.map_map,shape,← Option.map_map,← Option.map_map,same]

theorem member_alike (agree : AgreeApartFromTypes first second file) (place : Place) :
    Alike (Option.map Member.withoutTypes) (first.member? file place) (second.member? file place) := by
  -- The members of a class are smaller nodes than what declares it, however it is wrapped.
  induction size : sizeOf place.node using Nat.strongRecOn generalizing place with
  | ind size ih =>
    subst size
    cases known : declaration? file place with
    | none =>
      rw [member?_of_none known,member?_of_none known]
      exact .ok rfl
    | some declaration =>
      rw [member?_of_some known,member?_of_some known]
      apply declared_alike agree
      intro _
      apply classRecord_alike
      intro member inside
      have smaller : sizeOf member.node < sizeOf place.node :=
        Nat.lt_of_lt_of_le (sizeOf_lt_of_mem_classMembers inside) (sizeOf_declaration_le known)
      exact ih _ smaller member rfl

/-- The types that a reader knows decide nothing but types: two readers that differ in them only refuse
a file for the same fault, or give records of it that are equal without their types. -/
theorem moduleRecord_withoutTypes (agree : AgreeApartFromTypes first second file) (key : String)
    (dependencies : List String) : Alike ModuleRecord.withoutTypes
      (first.moduleRecord file key dependencies) (second.moduleRecord file key dependencies) := by
  apply (Alike.mapM fun place _ => member_alike agree place).bind
  intro members others same
  exact .ok (foldl_view ModuleRecord.append_withoutTypes same _)

-- A class with a property whose type only an initialiser shows

def countedClassTree : Node :=
  ⟨"program",true,0,17,[],[⟨"class_declaration",true,0,17,[],[⟨"class",false,0,5,[],[]⟩,
    ⟨"type_identifier",true,6,7,[.name],[]⟩,
    ⟨"class_body",true,8,17,[.body],[⟨"\x7b",false,8,9,[],[]⟩,
      ⟨"public_field_definition",true,10,15,[],[⟨"property_identifier",true,10,11,[.name],[]⟩,
        ⟨"=",false,12,13,[],[]⟩,⟨"number",true,14,15,[.value],[]⟩]⟩,
      ⟨"\x7d",false,16,17,[],[]⟩]⟩]⟩]⟩

def countedClassFile : SourceFile :=
  ⟨⟨"a.ts"⟩,Utf8.encode "class A \x7b n = 1 \x7d".toList,countedClassTree⟩

def countedClass (type : Option String) : ModuleRecord :=
  { ModuleRecord.empty "a.ts" [] with classes := [⟨some "A",[],[⟨"n",type⟩],[],[]⟩] }

def countedClassPlace : Place := countedClassFile.root.namedChildren.headD countedClassFile.root

def countedPlace : Place := (classMembers countedClassPlace).headD countedClassPlace

theorem moduleRecord_countedClass {reader : Reader} {type : Option String}
    (typed : reader.inferredType? countedClassFile countedPlace = type) :
    reader.moduleRecord countedClassFile "a.ts" [] = .ok (countedClass type) := by
  have top : countedClassFile.root.namedChildren = [countedClassPlace] := rfl
  have inside : classMembers countedClassPlace = [countedPlace] := rfl
  have name : declaredName countedClassFile countedPlace .propertyName = .ok "n" := by decide +kernel
  have className : declaredName? countedClassFile countedClassPlace = some "A" := by decide +kernel
  have counted : reader.property countedClassFile countedPlace = .ok ⟨"n",type⟩ := by
    rw [property,name,← typed]
    rfl
  have kept : reader.member? countedClassFile countedPlace = .ok (some (.property ⟨"n",type⟩)) := by
    rw [member?_of_some (declaration?_of_plain rfl),declared?,counted]
    rfl
  have recorded : reader.classRecord countedClassFile countedClassPlace =
      .ok ⟨some "A",[],[⟨"n",type⟩],[],[]⟩ := by
    rw [classRecord_eq,inside,List.mapM_cons,kept,className]
    rfl
  have declared : reader.member? countedClassFile countedClassPlace =
      .ok (some (.classDeclaration ⟨some "A",[],[⟨"n",type⟩],[],[]⟩)) := by
    rw [member?_of_some (declaration?_of_plain rfl),declared?,recorded]
    rfl
  rw [moduleRecord,top,List.mapM_cons,declared]
  rfl

theorem moduleRecord_withoutTypes_countedClass :
    AgreeApartFromTypes syntactic syntactic.untyped countedClassFile ∧
    ∃ typed untyped, syntactic.moduleRecord countedClassFile "a.ts" [] = .ok typed ∧
      syntactic.untyped.moduleRecord countedClassFile "a.ts" [] = .ok untyped ∧ typed ≠ untyped ∧
      typed.withoutTypes = untyped.withoutTypes := by
  have agree : AgreeApartFromTypes syntactic syntactic.untyped countedClassFile :=
    ⟨fun _ _ => rfl,fun _ => rfl⟩
  have number : syntactic.inferredType? countedClassFile countedPlace = some "number" := by
    decide +kernel
  have typed := moduleRecord_countedClass number
  have untyped : syntactic.untyped.moduleRecord countedClassFile "a.ts" [] = .ok (countedClass none) :=
    moduleRecord_countedClass rfl
  have alike := moduleRecord_withoutTypes agree "a.ts" []
  rw [typed,untyped] at alike
  cases alike with
  | ok same => exact ⟨agree,_,_,typed,untyped,by decide,same⟩

end Reader

end SourceAtlas
