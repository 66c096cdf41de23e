import SourceAtlas.Proofs.Bracketing
import SourceAtlas.Proofs.ExpressionType

/-! Types of arrays. The types of the elements are each named once and put together as a union; a union that
is written out in a single element type stays as it is, without parentheses. -/
namespace SourceAtlas.Syntax

open Text

-- First occurrences

/-- The items of a list in the order in which each occurs first. The order is strict, so none is there
twice. -/
structure FirstOccurrences {α : Type} [DecidableEq α] (items distinct : List α) : Prop where
  members : ∀ item, item ∈ distinct ↔ item ∈ items
  order : distinct.Pairwise fun before after => items.idxOf before < items.idxOf after

section Occurrences

variable {α : Type} [DecidableEq α] {items : List α} {first second : α}

theorem idxOf_lt_of_filter (keep : α → Bool) (here : keep first = true) (there : keep second = true)
    (before : (items.filter keep).idxOf first < (items.filter keep).idxOf second) :
    items.idxOf first < items.idxOf second := by
  induction items with
  | nil => exact before
  | cons item items ih =>
    cases kept : keep item with
    | false =>
      have other (this : α) (keeps : keep this = true) : item ≠ this := by
        rintro rfl
        exact absurd (kept.symm.trans keeps) (by decide)
      rw [List.filter_cons_of_neg (by simp [kept])] at before
      rw [List.idxOf_cons_ne _ (other first here),List.idxOf_cons_ne _ (other second there)]
      exact Nat.succ_lt_succ (ih before)
    | true =>
      rw [List.filter_cons_of_pos kept] at before
      by_cases last : item = second
      · rw [List.idxOf_cons_eq _ last] at before
        exact absurd before (Nat.not_lt_zero _)
      · by_cases now : item = first
        · rw [List.idxOf_cons_eq _ now,List.idxOf_cons_ne _ last]
          exact Nat.succ_pos _
        · rw [List.idxOf_cons_ne _ now,List.idxOf_cons_ne _ last] at before ⊢
          exact Nat.succ_lt_succ (ih (Nat.lt_of_succ_lt_succ before))

theorem pairwise_eraseDups : ∀ items : List α,
    items.eraseDups.Pairwise fun before after => items.idxOf before < items.idxOf after
  | [] => .nil
  | item :: items => by
    have apart (other : α) (inside : other ∈ (items.filter fun other => !other == item).eraseDups) :
        (!other == item) = true ∧ item ≠ other := by
      have kept := (List.mem_filter.mp (List.mem_eraseDups.mp inside)).2
      refine ⟨kept,?_⟩
      rintro rfl
      simp at kept
    rw [List.eraseDups_cons]
    refine List.pairwise_cons.mpr ⟨fun other inside => ?_,?_⟩
    · rw [List.idxOf_cons_self,List.idxOf_cons_ne _ (apart other inside).2]
      exact Nat.succ_pos _
    · refine (pairwise_eraseDups (items.filter fun other => !other == item)).imp_of_mem ?_
      intro before after here there order
      obtain ⟨first,before_ne⟩ := apart before here
      obtain ⟨second,after_ne⟩ := apart after there
      rw [List.idxOf_cons_ne _ before_ne,List.idxOf_cons_ne _ after_ne]
      exact Nat.succ_lt_succ (idxOf_lt_of_filter (fun other => !other == item) first second order)
termination_by items => items.length
decreasing_by exact Nat.lt_succ_of_le (List.length_filter_le _ _)

theorem firstOccurrences_eraseDups (items : List α) : FirstOccurrences items items.eraseDups :=
  ⟨fun _ => List.mem_eraseDups,pairwise_eraseDups items⟩

end Occurrences

-- The union of the element types

/-- The type of the elements of an array, from the types that occur among them. -/
def elementType : List String → String
  | [] => anyType
  | [type] => type
  | types => "(" ++ " | ".intercalate types ++ ")"

theorem arrayType_eq (types : List String) : arrayType types = elementType types.eraseDups ++ "[]" := by
  unfold arrayType
  generalize types.eraseDups = distinct
  match distinct with
  | [] => rfl
  | [_] => rfl
  | first :: second :: rest =>
    change "(" ++ " | ".intercalate (first :: second :: rest) ++ (")" ++ "[]") = _
    exact String.append_assoc.symm

theorem toList_union (types : List String) : ("(" ++ " | ".intercalate types ++ ")").toList =
    '(' :: " | ".toList.intercalate (types.map String.toList) ++ [')'] := by
  rw [String.toList_append,String.toList_append,String.toList_intercalate]
  rfl

theorem closed_union {types : List String} (each : ∀ type ∈ types, Closed type.toList) :
    Closed (" | ".toList.intercalate (types.map String.toList)) := by
  apply closed_intercalate
  intro piece inside
  obtain ⟨type,listed,rfl⟩ := List.mem_map.mp inside
  exact each type listed

theorem closed_elementType {types : List String} (each : ∀ type ∈ types, Closed type.toList) :
    Closed (elementType types).toList := by
  unfold elementType
  split
  · decide
  · exact each _ (List.mem_singleton_self _)
  · rw [toList_union]
    exact (closed_union each).parenthesised

/-- A union of several types is in parentheses, so it binds as one. -/
theorem bindsAsOne_elementType {types : List String} (each : ∀ type ∈ types, Closed type.toList) :
    BindsAsOne (elementType types).toList ↔ ∀ type, types = [type] → BindsAsOne type.toList := by
  unfold elementType
  split
  · exact iff_of_true (bindsAsOne_of_unmarked (by decide)) (by simp)
  · next type => exact ⟨fun binds _ same => (List.singleton_inj.mp same) ▸ binds,fun single => single type rfl⟩
  · next several =>
    rw [toList_union]
    exact iff_of_true (closed_union each).bindsAsOne fun type same => absurd same (several type)

theorem whole_elementType {types : List String} (each : ∀ type ∈ types, Whole type.toList) :
    Whole (elementType types).toList where
  closed := closed_elementType fun type inside => (each type inside).closed
  binds := by
    rw [bindsAsOne_elementType fun type inside => (each type inside).closed]
    rintro type rfl
    exact (each type (List.mem_singleton_self type)).binds

theorem closed_arrayType {types : List String} (each : ∀ type ∈ types, Closed type.toList) :
    Closed (arrayType types).toList := by
  rw [arrayType_eq,String.toList_append]
  exact (closed_elementType fun type inside => each type (List.mem_eraseDups.mp inside)).brackets

theorem whole_arrayType {types : List String} (each : ∀ type ∈ types, Whole type.toList) :
    Whole (arrayType types).toList := by
  rw [arrayType_eq,String.toList_append]
  exact (whole_elementType fun type inside => each type (List.mem_eraseDups.mp inside)).brackets

-- Types that are written out

section Written

variable {file : SourceFile} {node : Node} {type : String}

/-- A type is written out where inference takes its text from the source: in a cast, and as the name of a
class with its type arguments. -/
def SourceFile.Writes (file : SourceFile) (node : Node) (type : String) : Prop :=
  ∃ part, Reaches node part ∧ (part.kind = "as_expression" ∨ part.kind = "new_expression") ∧
    file.formOf part = .settled (some type)

theorem whole_of_unmarked {text : List Char} (closed : Closed text)
    (unmarked : (text.all fun c => c != '|' && c != '&' && c != '>') = true) : Whole text :=
  ⟨closed,bindsAsOne_of_unmarked unmarked⟩

theorem whole_literalType? {kind : String} (known : literalType? kind = some type) : Whole type.toList := by
  unfold literalType? at known
  split at known <;> cases known
  all_goals exact whole_of_unmarked (by decide) (by decide)

theorem whole_operatorType? {operator : String} (known : operatorType? operator = some type) :
    Whole type.toList := by
  unfold operatorType? at known
  split at known <;> cases known
  all_goals exact whole_of_unmarked (by decide) (by decide)

/-- A settled type is whole, unless it is written out. -/
theorem whole_or_written (form : file.formOf node = .settled (some type)) :
    Whole type.toList ∨ node.kind = "as_expression" ∨ node.kind = "new_expression" := by
  generalize shown : ExpressionForm.settled (some type) = settled at form
  cases form ▸ SourceFile.shows_formOf file node with
  | literal known =>
    cases shown
    exact .inl (whole_literalType? known)
  | wrapping => cases shown
  | cast kind _ => exact .inr (.inl kind)
  | constructed kind => exact .inr (.inr kind)
  | operated _ =>
    obtain ⟨_,_,known⟩ := Option.bind_eq_some_iff.mp (ExpressionForm.settled.inj shown).symm
    exact .inl (whole_operatorType? known)
  | array => cases shown
  | unknown => cases shown

theorem closed_typeOf? (found : file.typeOf? node = some type)
    (written : ∀ text, file.Writes node text → Closed text.toList) : Closed type.toList := by
  apply typeOf?_induction _ (fun _ => closed_arrayType) found
  intro part text reaches form
  rcases whole_or_written form with whole | kind
  · exact whole.closed
  · exact written text ⟨part,reaches,kind,form⟩

theorem whole_typeOf? (found : file.typeOf? node = some type)
    (written : ∀ text, file.Writes node text → Whole text.toList) : Whole type.toList := by
  apply typeOf?_induction _ (fun _ => whole_arrayType) found
  intro part text reaches form
  rcases whole_or_written form with whole | kind
  · exact whole
  · exact written text ⟨part,reaches,kind,form⟩

theorem SourceFile.Writes.of_asked {element : Node} (asks : AsksFor node element)
    (written : file.Writes element type) : file.Writes node type := by
  obtain ⟨part,reaches,kind,form⟩ := written
  exact ⟨part,.head asks reaches,kind,form⟩

theorem SourceFile.Writes.of_settled {shown : Option String} (form : file.formOf node = .settled shown)
    (written : file.Writes node type) :
    (node.kind = "as_expression" ∨ node.kind = "new_expression") ∧ shown = some type := by
  obtain ⟨part,reaches,kind,there⟩ := written
  cases Reaches.eq_of_settled form reaches
  exact ⟨kind,ExpressionForm.settled.inj (form.symm.trans there)⟩

theorem SourceFile.Writes.of_array (array : node.kind = "array") (written : file.Writes node type) :
    ∃ element ∈ node.parts, isComment element = false ∧ file.Writes element type := by
  obtain ⟨part,reaches,kind,form⟩ := written
  rcases Reaches.of_array array reaches with rfl | ⟨element,inside,said,later⟩
  · simp [array] at kind
  · exact ⟨element,inside,said,part,later,kind,form⟩

end Written

-- Arrays

/-- The places of the elements of an array. -/
def Place.elements (array : Place) : List Place :=
  array.namedChildren.filter fun element => !isComment element.node

theorem Place.map_node_elements (array : Place) :
    array.elements.map (·.node) = array.node.parts.filter fun element => !isComment element := by
  rw [Node.parts,← map_node_namedChildren,List.filter_map]
  rfl

theorem map_expressionType?_elements (file : SourceFile) (array : Place) :
    array.elements.map file.expressionType? =
      (array.node.parts.filter fun element => !isComment element).map file.typeOf? := by
  rw [← Place.map_node_elements,List.map_map]
  apply List.map_congr_left
  intro element _
  exact SourceFile.expressionType?_eq_typeOf? element

theorem mapM_eq_none_iff {α β : Type} {step : α → Option β} {items : List α} :
    items.mapM step = none ↔ ∃ item ∈ items, step item = none := by
  induction items with
  | nil => simp
  | cons item items ih =>
    rw [List.mapM_cons]
    cases here : step item with
    | none => simp [here]
    | some result =>
      simp only [List.mem_cons,exists_eq_or_imp,here,reduceCtorEq,false_or,← ih]
      cases items.mapM step <;> simp

theorem typeOf?_of_elements {file : SourceFile} {array : Node} {types : List String}
    (kind : array.kind = "array")
    (all : (array.parts.filter fun element => !isComment element).map file.typeOf? = types.map some) :
    file.typeOf? array = some (arrayType types) := by
  rw [SourceFile.typeOf?_of_array (SourceFile.form_of_array kind),mapM_eq_some_iff.mpr all]
  rfl

theorem asksFor_of_kept {array element : Node} (kind : array.kind = "array")
    (kept : element ∈ array.parts.filter fun element => !isComment element) : AsksFor array element := by
  obtain ⟨part,said⟩ := List.mem_filter.mp kept
  exact .element kind part (by simpa using said)

/-- Each type in an array is that of an element. -/
theorem exists_element {file : SourceFile} {array : Node} {types : List String} {type : String}
    (kind : array.kind = "array")
    (all : (array.parts.filter fun element => !isComment element).map file.typeOf? = types.map some)
    (inside : type ∈ types) : ∃ element ∈ array.parts.filter fun element => !isComment element,
      AsksFor array element ∧ file.typeOf? element = some type := by
  obtain ⟨element,kept,shown⟩ := List.mem_map.mp (all ▸ List.mem_map_of_mem inside)
  exact ⟨element,kept,asksFor_of_kept kind kept,shown⟩

/-- An array has no type exactly if an element has none. Otherwise its type is that of its elements with
brackets after it, made of the types of the elements in the order in which they occur first. If the types
that are written out open and close their own brackets, it binds as one unless it is a single type that does
not; and if they bind as one as well, it does. -/
theorem SourceFile.arrayType_exact (file : SourceFile) (array : Place) (kind : array.node.kind = "array") :
    (file.expressionType? array = none ↔ ∃ element ∈ array.elements, file.expressionType? element = none) ∧
    ∀ type, file.expressionType? array = some type → ∃ types distinct,
      array.elements.map file.expressionType? = types.map some ∧ FirstOccurrences types distinct ∧
      type = elementType distinct ++ "[]" ∧
      ((∀ text, file.Writes array.node text → Closed text.toList) →
        (BindsAsOne (elementType distinct).toList ↔ ∀ single, distinct = [single] → BindsAsOne single.toList)) ∧
      ((∀ text, file.Writes array.node text → Whole text.toList) →
        BindsAsOne (elementType distinct).toList) := by
  refine ⟨?_,fun type found => ?_⟩
  · rw [expressionType?_eq_typeOf?,typeOf?_of_array (form_of_array kind),Option.map_eq_none_iff,
      mapM_eq_none_iff,← Place.map_node_elements]
    simp only [List.mem_map,expressionType?_eq_typeOf?,exists_exists_and_eq_and]
  · rw [expressionType?_eq_typeOf?] at found
    obtain ⟨types,all,rfl⟩ := exists_elements kind found
    refine ⟨types,types.eraseDups,(map_expressionType?_elements file array).trans all,
      firstOccurrences_eraseDups types,arrayType_eq types,fun written => ?_,fun written => ?_⟩
    · apply bindsAsOne_elementType
      intro type listed
      obtain ⟨element,_,asks,shown⟩ := exists_element kind all (List.mem_eraseDups.mp listed)
      exact closed_typeOf? shown fun text here => written text (here.of_asked asks)
    · apply Whole.binds
      apply whole_elementType
      intro type listed
      obtain ⟨element,_,asks,shown⟩ := exists_element kind all (List.mem_eraseDups.mp listed)
      exact whole_typeOf? shown fun text here => written text (here.of_asked asks)

def castTree : Node :=
  ⟨"program",true,0,78,[],[
    ⟨"class_declaration",true,0,78,[],[
      ⟨"class",false,0,5,[],[]⟩,⟨"type_identifier",true,6,7,[.name],[]⟩,
      ⟨"class_body",true,8,78,[.body],[
        ⟨"\x7b",false,8,9,[],[]⟩,
        ⟨"public_field_definition",true,10,26,[],[
          ⟨"property_identifier",true,10,11,[.name],[]⟩,⟨"=",false,12,13,[],[]⟩,
          ⟨"array",true,14,26,[.value],[
            ⟨"[",false,14,15,[],[]⟩,
            ⟨"as_expression",true,15,25,[],[
              ⟨"identifier",true,15,16,[],[]⟩,⟨"as",false,17,19,[],[]⟩,
              ⟨"union_type",true,20,25,[],[
                ⟨"type_identifier",true,20,21,[],[]⟩,⟨"|",false,22,23,[],[]⟩,
                ⟨"type_identifier",true,24,25,[],[]⟩]⟩]⟩,
            ⟨"]",false,25,26,[],[]⟩]⟩]⟩,
        ⟨";",false,26,27,[],[]⟩,
        ⟨"public_field_definition",true,28,75,[],[
          ⟨"property_identifier",true,28,29,[.name],[]⟩,⟨"=",false,30,31,[],[]⟩,
          ⟨"array",true,32,75,[.value],[
            ⟨"[",false,32,33,[],[]⟩,
            ⟨"as_expression",true,33,43,[],[
              ⟨"identifier",true,33,34,[],[]⟩,⟨"as",false,35,37,[],[]⟩,
              ⟨"union_type",true,38,43,[],[
                ⟨"type_identifier",true,38,39,[],[]⟩,⟨"|",false,40,41,[],[]⟩,
                ⟨"type_identifier",true,42,43,[],[]⟩]⟩]⟩,
            ⟨",",false,43,44,[],[]⟩,⟨"comment",true,45,52,[],[]⟩,
            ⟨"array",true,53,62,[],[
              ⟨"[",false,53,54,[],[]⟩,⟨"number",true,54,55,[],[]⟩,⟨",",false,55,56,[],[]⟩,
              ⟨"true",true,57,61,[],[]⟩,⟨"]",false,61,62,[],[]⟩]⟩,
            ⟨",",false,62,63,[],[]⟩,
            ⟨"array",true,64,74,[],[
              ⟨"[",false,64,65,[],[]⟩,⟨"number",true,65,66,[],[]⟩,⟨",",false,66,67,[],[]⟩,
              ⟨"false",true,68,73,[],[]⟩,⟨"]",false,73,74,[],[]⟩]⟩,
            ⟨"]",false,74,75,[],[]⟩]⟩]⟩,
        ⟨";",false,75,76,[],[]⟩,⟨"\x7d",false,77,78,[],[]⟩]⟩]⟩]⟩

def castFile : SourceFile :=
  ⟨⟨"a.ts"⟩,Utf8.encode
    "class A \x7b a = [x as B | C]; b = [x as B | C, /* c */ [1, true], [2, false]]; \x7d".toList,castTree⟩

/-- The value of a field of the class: an array of one cast, and one of a cast and two arrays. -/
def castArray (index : Nat) : Place := castFile.root.descend [0,1,index,1]

/-- A part of an array, comments counted. -/
def castPart (array part : Nat) : Node := ((castArray array).descend [part]).node

theorem cast_forms : castFile.formOf (castPart 0 0) = .settled (some "B | C") ∧
    castFile.formOf (castPart 1 0) = .settled (some "B | C") := by
  have first : castFile.typeText? ((Place.root (castPart 0 0)).descend [1]) = some "B | C" := by
    decide +kernel
  have second : castFile.typeText? ((Place.root (castPart 1 0)).descend [1]) = some "B | C" := by
    decide +kernel
  exact ⟨congrArg ExpressionForm.settled first,congrArg ExpressionForm.settled second⟩

theorem formOf_of_literal {file : SourceFile} {node : Node} {type : String}
    (known : literalType? node.kind = some type) : file.formOf node = .settled (some type) := by
  rw [SourceFile.formOf,SourceFile.expressionForm,Place.root,known]

theorem not_written_of_literal {file : SourceFile} {node : Node} {type text : String}
    (known : literalType? node.kind = some type) : ¬file.Writes node text := by
  intro written
  obtain ⟨kind | kind,_⟩ := written.of_settled (formOf_of_literal known)
  all_goals
    rw [kind] at known
    cases known

/-- An array of a number and a logical value. -/
structure Pairs (array number logical : Node) : Prop where
  kind : array.kind = "array"
  parts : array.parts = [number,logical]
  number : literalType? number.kind = some "number"
  logical : literalType? logical.kind = some "boolean"

theorem Pairs.typeOf?_eq {array number logical : Node} (pairs : Pairs array number logical)
    (said : ([number,logical].all fun element => !isComment element) = true) :
    castFile.typeOf? array = some "(number | boolean)[]" := by
  have elements : (array.parts.filter fun element => !isComment element) = [number,logical] := by
    rw [pairs.parts,List.filter_eq_self]
    simpa using said
  have type : arrayType ["number","boolean"] = "(number | boolean)[]" := by decide +kernel
  rw [← type]
  apply typeOf?_of_elements pairs.kind
  rw [elements,List.map_cons,List.map_singleton,SourceFile.typeOf?_of_settled (formOf_of_literal pairs.number),
    SourceFile.typeOf?_of_settled (formOf_of_literal pairs.logical)]
  rfl

theorem Pairs.not_written {array number logical : Node} {text : String} (pairs : Pairs array number logical) :
    ¬castFile.Writes array text := by
  intro written
  obtain ⟨element,inside,_,here⟩ := written.of_array pairs.kind
  rw [pairs.parts] at inside
  rcases List.mem_pair.mp inside with rfl | rfl
  · exact not_written_of_literal pairs.number here
  · exact not_written_of_literal pairs.logical here

theorem castPart_pairs : Pairs (castPart 1 2) ⟨"number",true,54,55,[],[]⟩ ⟨"true",true,57,61,[],[]⟩ ∧
    Pairs (castPart 1 3) ⟨"number",true,65,66,[],[]⟩ ⟨"false",true,68,73,[],[]⟩ :=
  ⟨⟨rfl,rfl,rfl,rfl⟩,rfl,rfl,rfl,rfl⟩

def castTypes : List String := ["B | C","(number | boolean)[]","(number | boolean)[]"]

theorem castArray_elements :
    ((castArray 1).node.parts.filter fun element => !isComment element).map castFile.typeOf? =
      castTypes.map some := by
  have front := castPart_pairs.1.typeOf?_eq (by decide)
  have back := castPart_pairs.2.typeOf?_eq (by decide)
  change [castPart 1 0,castPart 1 2,castPart 1 3].map castFile.typeOf? = _
  rw [List.map_cons,List.map_cons,List.map_singleton,SourceFile.typeOf?_of_settled cast_forms.2,front,back]
  rfl

theorem cast_types : castFile.typeOf? (castArray 0).node = some "B | C[]" ∧
    castFile.typeOf? (castArray 1).node = some "(B | C | (number | boolean)[])[]" := by
  have single : arrayType ["B | C"] = "B | C[]" := by decide +kernel
  have several : arrayType castTypes = "(B | C | (number | boolean)[])[]" := by decide +kernel
  rw [← single,← several]
  refine ⟨typeOf?_of_elements rfl ?_,typeOf?_of_elements rfl castArray_elements⟩
  change [castPart 0 0].map castFile.typeOf? = _
  rw [List.map_singleton,SourceFile.typeOf?_of_settled cast_forms.1]
  rfl

theorem cast_written {text : String} (written : castFile.Writes (castArray 1).node text) : text = "B | C" := by
  obtain ⟨_,form⟩ := cast_forms
  obtain ⟨element,inside,said,here⟩ := written.of_array rfl
  have parts : (castArray 1).node.parts = [castPart 1 0,castPart 1 1,castPart 1 2,castPart 1 3] := rfl
  have known : element = castPart 1 0 ∨ element = castPart 1 1 ∨ element = castPart 1 2 ∨
      element = castPart 1 3 := by simpa [parts] using inside
  rcases known with rfl | rfl | rfl | rfl
  · obtain ⟨_,same⟩ := here.of_settled form
    exact (Option.some.inj same).symm
  · exact absurd said (by decide)
  · exact absurd here castPart_pairs.1.not_written
  · exact absurd here castPart_pairs.2.not_written

theorem SourceFile.arrayType_exact_casts :
    (castArray 1).node.kind = "array" ∧
    castFile.expressionType? (castArray 1) = some "(B | C | (number | boolean)[])[]" ∧
    (∀ text, castFile.Writes (castArray 1).node text → Closed text.toList) ∧
    (∃ element, "(B | C | (number | boolean)[])[]" = element ++ "[]" ∧ BindsAsOne element.toList) ∧
    ¬∃ element ∈ (castArray 1).elements, castFile.expressionType? element = none := by
  obtain ⟨failing,typed⟩ := arrayType_exact castFile (castArray 1) rfl
  have shown := (expressionType?_eq_typeOf? (castArray 1)).trans cast_types.2
  have closed (text : String) (written : castFile.Writes (castArray 1).node text) : Closed text.toList := by
    rw [cast_written written]
    decide
  obtain ⟨types,distinct,all,once,apart,bound,_⟩ := typed _ shown
  have listed : types = castTypes := by
    apply List.map_injective_iff.mpr fun _ _ => Option.some.inj
    rw [← all,map_expressionType?_elements,castArray_elements]
  refine ⟨rfl,shown,closed,⟨elementType distinct,apart,(bound closed).mpr ?_⟩,fun none => ?_⟩
  · rintro single rfl
    have first := (once.members "B | C").mpr (by rw [listed]; decide)
    have second := (once.members "(number | boolean)[]").mpr (by rw [listed]; decide)
    exact absurd ((List.mem_singleton.mp first).trans (List.mem_singleton.mp second).symm) (by decide)
  · exact absurd (shown.symm.trans (failing.mpr none)) (by decide)

/-- Brackets after a type of elements do not always apply to all of it. -/
theorem elementType_not_bindsAsOne :
    castFile.expressionType? (castArray 0) = some "B | C[]" ∧
    ¬∀ (file : SourceFile) (array : Place) (element : String), array.node.kind = "array" →
      file.expressionType? array = some (element ++ "[]") → BindsAsOne element.toList := by
  have shown := (SourceFile.expressionType?_eq_typeOf? (castArray 0)).trans cast_types.1
  refine ⟨shown,fun claimed => ?_⟩
  have binds := claimed castFile (castArray 0) "B | C" rfl shown
  obtain ⟨top,outer,lead,scanned⟩ := binds ['|'] (by decide) "B ".toList " C".toList (by decide)
  have free : Nest.start.scan "B ".toList = some ⟨[],.plain⟩ := by decide
  cases free.symm.trans scanned

end SourceAtlas.Syntax
