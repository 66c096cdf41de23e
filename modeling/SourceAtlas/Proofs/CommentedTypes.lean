import SourceAtlas.Declaration.Extract
import SourceAtlas.Proofs.ExpressionType

/-! Comments within annotations, initialisers and rest patterns. One that stands first among the parts
is taken for what it stands before. -/
namespace SourceAtlas.Syntax

namespace Node

variable {node first last : Node}

/-- The first part that is not a comment. -/
def said? (node : Node) : Option Node := node.parts.find? fun part => !isComment part

/-- The comments before all other parts. -/
def remarks (node : Node) : List Node := node.parts.takeWhile isComment

/-- An expression around another one, or an array. -/
def opens (node : Node) : Bool :=
  match node.kind with
  | "parenthesized_expression" | "satisfies_expression" | "array" => true
  | "as_expression" => (node.children.filter fun child => !isComment child).getLast?.any (·.kind == "const")
  | _ => false

def kept (node : Node) : List Node :=
  if node.opens then node.children.filter fun child => !isComment child else node.children

theorem kept_of_opens (opens : node.opens = true) :
    node.kept = node.children.filter fun child => !isComment child := if_pos opens

theorem kept_of_closed (closed : node.opens = false) : node.kept = node.children := if_neg (by simp [closed])

theorem mem_children_of_mem_kept {child : Node} (inside : child ∈ node.kept) : child ∈ node.children := by
  unfold kept at inside
  split at inside
  · exact (List.mem_filter.mp inside).1
  · exact inside

/-- A node without the comments in the wrappers and arrays that it has at any depth. -/
def uncommented (node : Node) : Node :=
  { node with children := node.kept.attach.map fun child => child.1.uncommented }
termination_by node
decreasing_by exact sizeOf_child_lt (mem_children_of_mem_kept child.2)

theorem uncommented_eq (node : Node) :
    node.uncommented = { node with children := node.kept.map uncommented } := by
  rw [uncommented,List.attach_map_val]

@[simp] theorem uncommented_kind (node : Node) : node.uncommented.kind = node.kind := by rw [uncommented]

@[simp] theorem uncommented_named (node : Node) : node.uncommented.named = node.named := by rw [uncommented]

@[simp] theorem uncommented_roles (node : Node) : node.uncommented.roles = node.roles := by rw [uncommented]

@[simp] theorem uncommented_span (node : Node) : node.uncommented.span = node.span := by
  rw [uncommented]
  rfl

@[simp] theorem uncommented_children (node : Node) :
    node.uncommented.children = node.kept.map uncommented := by rw [uncommented_eq]

@[simp] theorem isComment_uncommented (node : Node) : isComment node.uncommented = isComment node := by
  rw [isComment,isComment,uncommented_kind]

theorem uncommented_parts (node : Node) :
    node.uncommented.parts = (node.kept.filter (·.named)).map uncommented := by
  rw [parts,uncommented_children,List.filter_map]
  apply congrArg (List.map uncommented)
  apply List.filter_congr
  intro child _
  exact uncommented_named child

theorem head?_parts {part : Node} (said : node.said? = some part) :
    node.parts.head? = some (node.remarks.headD part) := by
  unfold said? at said
  unfold remarks
  cases parted : node.parts with
  | nil => exact absurd (parted ▸ said) (by simp)
  | cons first rest =>
    cases remark : isComment first with
    | true =>
      rw [List.takeWhile_cons_of_pos remark]
      rfl
    | false =>
      rw [parted,List.find?_cons_of_pos (by rw [remark]; rfl)] at said
      rw [List.takeWhile_cons_of_neg (by rw [remark]; simp)]
      exact said

theorem remarks_eq_nil_iff :
    node.remarks = [] ↔ ∀ part, node.parts.head? = some part → isComment part = false := by
  unfold remarks
  cases node.parts with
  | nil => simp
  | cons first rest => cases remark : isComment first <;> simp [remark]

/-- A wrapper whose expression stands after a comment. -/
structure LedByComment (node : Node) : Prop where
  wraps : node.Wraps
  led : node.remarks ≠ []

/-- A constant cast with a comment after it. -/
structure EndsInComment (node last : Node) : Prop where
  kind : node.kind = "as_expression"
  constant : node.opens = true
  ends : node.children.getLast? = some last
  remark : isComment last = true

theorem said_of_const (constant : node.kind = "const") : isComment node = false := by
  rw [isComment,constant]
  decide

theorem getLast?_filter_of_said (ends : node.children.getLast? = some last) (said : isComment last = false) :
    (node.children.filter fun child => !isComment child).getLast? = some last := by
  obtain ⟨before,apart⟩ := List.getLast?_eq_some_iff.mp ends
  rw [apart,List.filter_append,List.filter_cons_of_pos (by rw [said]; rfl),List.filter_nil]
  exact List.getLast?_concat

theorem Wraps.opens (wraps : node.Wraps) : node.opens = true := by
  unfold Node.opens
  rcases wraps with kind | kind | ⟨kind,last,ends,constant⟩
  · rw [kind]
    rfl
  · rw [kind]
    rfl
  · rw [kind,getLast?_filter_of_said ends (said_of_const constant)]
    simp [constant]

theorem opens_of_array (array : node.kind = "array") : node.opens = true := by
  unfold opens
  rw [array]
  rfl

theorem opens_cases (opens : node.opens = true) :
    node.Wraps ∨ node.kind = "array" ∨ ∃ last, node.EndsInComment last := by
  have shown := opens
  unfold Node.opens at opens
  split at opens
  · next kind => exact .inl (.inl kind)
  · next kind => exact .inl (.inr (.inl kind))
  · next kind => exact .inr (.inl kind)
  · next kind =>
    obtain ⟨final,found,constant⟩ := (Option.any_eq_true _ _).mp opens
    cases ends : node.children.getLast? with
    | none => simp [List.getLast?_eq_none_iff.mp ends] at found
    | some last =>
      cases remark : isComment last with
      | true => exact .inr (.inr ⟨last,kind,shown,ends,remark⟩)
      | false =>
        rw [getLast?_filter_of_said ends remark] at found
        cases found
        exact .inl (.inr (.inr ⟨kind,_,ends,by simpa using constant⟩))
  · simp at opens

theorem Wraps.uncommented (wraps : node.Wraps) : node.uncommented.Wraps := by
  have opens := wraps.opens
  rcases wraps with kind | kind | ⟨kind,final,ends,constant⟩
  · exact .inl ((uncommented_kind node).trans kind)
  · exact .inr (.inl ((uncommented_kind node).trans kind))
  · have still := (uncommented_kind final).trans constant
    refine .inr (.inr ⟨(uncommented_kind node).trans kind,final.uncommented,?_,still⟩)
    rw [uncommented_children,List.getLast?_map,kept_of_opens opens,
      getLast?_filter_of_said ends (said_of_const constant)]
    rfl

theorem parts_of_closed (closed : node.opens = false) :
    node.uncommented.parts = node.parts.map uncommented := by
  rw [uncommented_parts,kept_of_closed closed]
  rfl

theorem parts_of_opens (opens : node.opens = true) :
    node.uncommented.parts = (node.parts.filter fun part => !isComment part).map uncommented := by
  rw [uncommented_parts,kept_of_opens opens,parts,List.filter_comm]

theorem closed_of_wrapsType (wraps : wrapsType node.kind = true) : node.opens = false := by
  unfold wrapsType at wraps
  unfold opens
  simp only [Bool.or_eq_true,beq_iff_eq] at wraps
  rcases wraps with (kind | kind) | kind
  all_goals
    rw [kind]
    rfl

theorem uncommented_readsLike (node : Node) : node.uncommented.ReadsLike node where
  kind := uncommented_kind node
  whole := uncommented_span node
  carried wraps := by
    rw [uncommented_kind] at wraps
    rw [parts_of_closed (closed_of_wrapsType wraps),List.head?_map,Option.map_map]
    apply Option.map_congr
    intro part _
    exact uncommented_span part

theorem uncommented_looksLike (closed : node.opens = false) : node.uncommented.LooksLike node where
  kind := uncommented_kind node
  last := by
    rw [uncommented_children,kept_of_closed closed,List.getLast?_map]
    cases node.children.getLast? with
    | none => exact .none
    | some last => exact .some (uncommented_readsLike last)
  fields field := by
    have role : (fun child : Node => decide (field ∈ child.roles)) ∘ Node.uncommented =
        fun child => decide (field ∈ child.roles) := by
      funext child
      simp
    rw [part?,uncommented_children,kept_of_closed closed,List.find?_map,role,Option.map_map]
    apply Option.map_congr
    intro part _
    exact uncommented_span part

end Node

-- Types with and without the comments

section Types

variable {file : SourceFile} {node first last : Node}

theorem typeOf?_of_comment (remark : isComment node = true) : file.typeOf? node = none := by
  have kind : node.kind = "comment" := by simpa [isComment] using remark
  apply SourceFile.typeOf?_of_settled
  rw [SourceFile.formOf,SourceFile.expressionForm,Place.root,kind]
  rfl

theorem typeOf?_of_ledByComment (led : node.LedByComment) : file.typeOf? node = none := by
  rw [SourceFile.typeOf?_of_wrapping (SourceFile.form_of_wraps led.wraps)]
  cases leads : node.parts.head? with
  | none => rfl
  | some first =>
    cases remark : isComment first with
    | true => exact typeOf?_of_comment remark
    | false =>
      refine absurd (Node.remarks_eq_nil_iff.mpr ?_) led.led
      intro part same
      cases leads.symm.trans same
      exact remark

theorem typeOf?_of_endsInComment (ends : node.EndsInComment last) :
    file.typeOf? node = (some (file.lineText last)).filter (· ≠ "") := by
  have kind : last.kind = "comment" := by simpa [isComment] using ends.remark
  have found := (SourceFile.getLast?_children_root node).trans ends.ends
  obtain ⟨place,there,rfl⟩ := Option.map_eq_some_iff.mp found
  have root : (Place.root node).node.kind = "as_expression" := ends.kind
  have alone : file.typeText? place = (some (file.lineText place.node)).filter (· ≠ "") := by
    rw [SourceFile.typeText?,Place.typeNode?,kind]
    rfl
  apply SourceFile.typeOf?_of_settled
  rw [SourceFile.formOf,SourceFile.expressionForm,there,root]
  exact (if_neg (by rw [kind]; decide)).trans (congrArg _ alone)

theorem typeOf?_uncommented_of_closed (closed : node.opens = false) :
    file.typeOf? node.uncommented = file.typeOf? node := by
  have same : file.formOf node.uncommented = file.formOf node :=
    SourceFile.formOf_eq (Node.uncommented_looksLike closed)
  cases form : file.formOf node with
  | settled type => rw [SourceFile.typeOf?_of_settled form,SourceFile.typeOf?_of_settled (same.trans form)]
  | wrapping =>
    have wraps := (SourceFile.wraps_of_form form).opens
    exact absurd (closed.symm.trans wraps) (by decide)
  | array =>
    have opens := Node.opens_of_array (SourceFile.array_of_form form)
    exact absurd (closed.symm.trans opens) (by decide)

theorem typeOf?_uncommented_of_wraps (wraps : node.Wraps) (led : ¬node.LedByComment)
    (below : ∀ part, AsksFor node part → file.typeOf? part.uncommented = file.typeOf? part) :
    file.typeOf? node.uncommented = file.typeOf? node := by
  have remarks : node.remarks = [] := by
    by_contra remarked
    exact led ⟨wraps,remarked⟩
  have said := Node.remarks_eq_nil_iff.mp remarks
  have each : ∀ first, node.parts.head? = some first → file.typeOf? first.uncommented = file.typeOf? first :=
    fun first leads => below first (.inner wraps leads)
  rw [SourceFile.typeOf?_of_wrapping (SourceFile.form_of_wraps wraps),
    SourceFile.typeOf?_of_wrapping (SourceFile.form_of_wraps wraps.uncommented),
    Node.parts_of_opens wraps.opens]
  generalize node.parts = parts at said each ⊢
  cases parts with
  | nil => rfl
  | cons first rest =>
    rw [List.filter_cons_of_pos (by rw [said first rfl]; rfl)]
    exact each first rfl

theorem typeOf?_uncommented_of_array (array : node.kind = "array")
    (below : ∀ part, AsksFor node part → file.typeOf? part.uncommented = file.typeOf? part) :
    file.typeOf? node.uncommented = file.typeOf? node := by
  have bare : node.uncommented.kind = "array" := (Node.uncommented_kind node).trans array
  have still : (fun part => !isComment part) ∘ Node.uncommented = fun part => !isComment part := by
    funext part
    simp
  rw [SourceFile.typeOf?_of_array (SourceFile.form_of_array array),
    SourceFile.typeOf?_of_array (SourceFile.form_of_array bare),
    Node.parts_of_opens (Node.opens_of_array array),List.filter_map,still,List.filter_filter,List.mapM_map]
  simp only [Bool.and_self]
  apply congrArg (Option.map arrayType)
  apply mapM_eq_of_forall
  intro element kept
  obtain ⟨inside,said⟩ := List.mem_filter.mp kept
  exact below element (.element array inside (by simpa using said))

/-- Comments have no say in a type, except one before a wrapped expression or after a constant cast. -/
theorem typeOf?_uncommented
    (plain : ∀ part, Reaches node part → ¬part.LedByComment ∧ ∀ last, ¬part.EndsInComment last) :
    file.typeOf? node.uncommented = file.typeOf? node := by
  induction size : sizeOf node using Nat.strongRecOn generalizing node with
  | ind size ih =>
    subst size
    have below (part : Node) (asks : AsksFor node part) : file.typeOf? part.uncommented = file.typeOf? part :=
      ih _ asks.sizeOf_lt (fun deeper reaches => plain deeper (.head asks reaches)) rfl
    obtain ⟨led,ended⟩ := plain node .refl
    cases opens : node.opens with
    | false => exact typeOf?_uncommented_of_closed opens
    | true =>
      rcases Node.opens_cases opens with wraps | array | ⟨last,ends⟩
      · exact typeOf?_uncommented_of_wraps wraps led below
      · exact typeOf?_uncommented_of_array array below
      · exact absurd ends (ended last)

end Types

end SourceAtlas.Syntax

-- What a reader makes of comments

namespace SourceAtlas

open Syntax

theorem statedType?_of_said {file : SourceFile} {place : Place} {said : Node}
    (wraps : wrapsType place.node.kind = true) (carried : place.node.said? = some said) :
    Reader.syntactic.statedType? file place =
      (some (file.lineText (place.node.remarks.headD said))).filter (· ≠ "") := by
  change file.typeText? place = _
  rw [SourceFile.typeText?,Place.typeNode?_eq,if_pos wraps,Node.head?_parts carried]
  rfl

theorem parameter_of_rest {reader : Reader} {file : SourceFile} {place pattern : Place} {said : Node}
    (found : place.child? .pattern = some pattern) (rest : pattern.node.kind = "rest_pattern")
    (named : pattern.node.said? = some said) : reader.parameter file place =
      .ok ⟨file.text (pattern.node.remarks.headD said),reader.typeIn? file .type place⟩ := by
  rw [Reader.parameter,found]
  change Except.ok _ = _
  rw [Reader.parameterName,if_pos rest,Place.map_node_head?,Node.head?_parts named]
  rfl

/-- An annotation and a rest parameter read as the comment that stands first, if one does. A value in
which inference meets a wrapper led by a comment has no type, and a constant cast with a comment after it
has that comment for its type. Apart from these two a value has the type it has without comments. -/
theorem types_commented (file : SourceFile) :
    (∀ (place : Place) (said : Node), wrapsType place.node.kind = true → place.node.said? = some said →
      Reader.syntactic.statedType? file place =
        (some (file.lineText (place.node.remarks.headD said))).filter (· ≠ "")) ∧
    (∀ declaration value : Place, declaration.child? .value = some value →
      (∀ part, Reaches value.node part → part.LedByComment →
        Reader.syntactic.inferredType? file declaration = none) ∧
      (∀ last, value.node.EndsInComment last → Reader.syntactic.inferredType? file declaration =
        (some (file.lineText last)).filter (· ≠ "")) ∧
      ((∀ part, Reaches value.node part → ¬part.LedByComment ∧ ∀ last, ¬part.EndsInComment last) →
        ∀ other bare : Place, other.child? .value = some bare → bare.node = value.node.uncommented →
          Reader.syntactic.inferredType? file declaration = Reader.syntactic.inferredType? file other)) ∧
    ∀ (reader : Reader) (place pattern : Place) (said : Node), place.child? .pattern = some pattern →
      pattern.node.kind = "rest_pattern" → pattern.node.said? = some said →
      reader.parameter file place =
        .ok ⟨file.text (pattern.node.remarks.headD said),reader.typeIn? file .type place⟩ := by
  refine ⟨fun _ _ => statedType?_of_said,?_,fun _ _ _ _ => parameter_of_rest⟩
  intro declaration value found
  have shown : Reader.syntactic.inferredType? file declaration = file.typeOf? value.node :=
    SourceFile.inferredType?_eq found
  refine ⟨?_,?_,?_⟩
  · intro part reaches led
    rw [shown]
    cases typed : file.typeOf? value.node with
    | none => rfl
    | some type =>
      obtain ⟨inner,known,_⟩ := Reaches.exists_type reaches typed
      exact absurd (known.symm.trans (typeOf?_of_ledByComment led)) (by simp)
  · intro last ends
    exact shown.trans (typeOf?_of_endsInComment ends)
  · intro plain other bare there same
    have uncommented : Reader.syntactic.inferredType? file other = file.typeOf? bare.node :=
      SourceFile.inferredType?_eq there
    rw [shown,uncommented,same,typeOf?_uncommented plain]

def remarkedTree : Node :=
  ⟨"program",true,0,74,[],[⟨"class_declaration",true,0,74,[],[⟨"class",false,0,5,[],[]⟩,
    ⟨"type_identifier",true,6,7,[.name],[]⟩,
    ⟨"class_body",true,8,74,[.body],[⟨"\x7b",false,8,9,[],[]⟩,
      ⟨"public_field_definition",true,10,25,[],[⟨"property_identifier",true,10,11,[.name],[]⟩,
        ⟨"=",false,12,13,[],[]⟩,
        ⟨"parenthesized_expression",true,14,25,[.value],[⟨"(",false,14,15,[],[]⟩,
          ⟨"comment",true,15,22,[],[]⟩,⟨"number",true,23,24,[],[]⟩,⟨")",false,24,25,[],[]⟩]⟩]⟩,
      ⟨";",false,25,26,[],[]⟩,
      ⟨"public_field_definition",true,27,42,[],[⟨"property_identifier",true,27,28,[.name],[]⟩,
        ⟨"=",false,29,30,[],[]⟩,
        ⟨"array",true,31,42,[.value],[⟨"[",false,31,32,[],[]⟩,
          ⟨"comment",true,32,39,[],[]⟩,⟨"number",true,40,41,[],[]⟩,⟨"]",false,41,42,[],[]⟩]⟩]⟩,
      ⟨";",false,42,43,[],[]⟩,
      ⟨"method_definition",true,44,72,[],[⟨"property_identifier",true,44,45,[.name],[]⟩,
        ⟨"formal_parameters",true,45,69,[.parameters],[⟨"(",false,45,46,[],[]⟩,
          ⟨"required_parameter",true,46,68,[],[
            ⟨"rest_pattern",true,46,57,[.pattern],[⟨"...",false,46,49,[],[]⟩,
              ⟨"comment",true,49,56,[],[]⟩,⟨"identifier",true,56,57,[],[]⟩]⟩,
            ⟨"type_annotation",true,57,68,[.type],[⟨":",false,57,58,[],[]⟩,
              ⟨"comment",true,59,66,[],[]⟩,⟨"type_identifier",true,67,68,[],[]⟩]⟩]⟩,
          ⟨")",false,68,69,[],[]⟩]⟩,
        ⟨"statement_block",true,70,72,[.body],[⟨"\x7b",false,70,71,[],[]⟩,
          ⟨"\x7d",false,71,72,[],[]⟩]⟩]⟩,
      ⟨"\x7d",false,73,74,[],[]⟩]⟩]⟩]⟩

def remarkedFile : SourceFile :=
  ⟨⟨"a.ts"⟩,Utf8.encode
    "class A \x7b p = (/* c */ 1); q = [/* d */ 2]; m(.../* a */r: /* b */ T) \x7b\x7d \x7d".toList,remarkedTree⟩

/-- A member of the class: a field with a wrapped value, one with an array, and a method. -/
def remarkedMember (index : Nat) : Place := remarkedFile.root.descend [0,1,index]

def remarkedValue (index : Nat) : Place := (remarkedMember index).descend [1]

def remarkedParameter : Place := (remarkedMember 2).descend [1,0]

def remarkedPattern : Place := remarkedParameter.descend [0]

def remarkedAnnotation : Place := remarkedParameter.descend [1]

def commentedCast : Node :=
  ⟨"as_expression",true,10,22,[.value],[⟨"number",true,10,10,[],[]⟩,⟨"as",false,10,10,[],[]⟩,
    ⟨"const",false,10,10,[],[]⟩,⟨"comment",true,15,22,[],[]⟩]⟩

/-- A field with a value that is not where the tree has it. -/
def fieldOf (value : Node) : Place := .root ⟨"public_field_definition",true,10,25,[],[value]⟩

theorem child?_fieldOf {value : Node} (role : Field.value ∈ value.roles) : ∃ place,
    (fieldOf value).child? .value = some place ∧ place.node = value := by
  refine ⟨⟨value,[⟨(fieldOf value).node,[]⟩]⟩,?_,rfl⟩
  exact List.find?_cons_of_pos (decide_eq_true role)

theorem remarked_wraps : (remarkedValue 0).node.Wraps := .inl rfl

theorem remarked_led : (remarkedValue 0).node.LedByComment := ⟨remarked_wraps,by decide⟩

theorem remarked_number : remarkedFile.typeOf? (remarkedValue 0).node.uncommented = some "number" := by
  rw [SourceFile.typeOf?_of_wrapping (SourceFile.form_of_wraps remarked_wraps.uncommented),
    Node.parts_of_opens remarked_wraps.opens]
  change remarkedFile.typeOf? (Node.uncommented ⟨"number",true,23,24,[],[]⟩) = _
  apply SourceFile.typeOf?_of_settled
  rw [SourceFile.formOf,SourceFile.expressionForm,Place.root,Node.uncommented_kind]
  rfl

theorem remarked_texts : remarkedFile.lineText ⟨"comment",true,59,66,[],[]⟩ = "/* b */" ∧
    remarkedFile.lineText ⟨"type_identifier",true,67,68,[],[]⟩ = "T" ∧
    remarkedFile.text ⟨"comment",true,49,56,[],[]⟩ = "/* a */" ∧
    remarkedFile.text ⟨"identifier",true,56,57,[],[]⟩ = "r" := by decide +kernel

theorem remarked_reaches {part : Node} (reaches : Reaches (remarkedValue 1).node part) :
    part.kind = "array" ∨ part.kind = "number" := by
  have number : remarkedFile.formOf ⟨"number",true,40,41,[],[]⟩ = .settled (some "number") := rfl
  have elements : (remarkedValue 1).node.parts =
    [⟨"comment",true,32,39,[],[]⟩,⟨"number",true,40,41,[],[]⟩] := rfl
  rcases Reaches.of_array rfl reaches with rfl | ⟨element,inside,said,later⟩
  · exact .inl rfl
  · rw [elements] at inside
    rcases List.mem_pair.mp inside with rfl | rfl
    · exact absurd said (by decide)
    · rw [Reaches.eq_of_settled number later]
      exact .inr rfl

theorem remarked_plain (part : Node) (reaches : Reaches (remarkedValue 1).node part) :
    ¬part.LedByComment ∧ ∀ last, ¬part.EndsInComment last := by
  have closed : ¬part.Wraps ∧ part.kind ≠ "as_expression" := by
    rcases remarked_reaches reaches with kind | kind <;> simp [Node.Wraps,kind]
  exact ⟨fun led => closed.1 led.wraps,fun _ ends => closed.2 ends.kind⟩

theorem commentedCast_ends : commentedCast.EndsInComment ⟨"comment",true,15,22,[],[]⟩ :=
  ⟨rfl,by decide,rfl,rfl⟩

theorem types_commented_remarked :
    (wrapsType remarkedAnnotation.node.kind = true ∧
      remarkedAnnotation.node.said? = some ⟨"type_identifier",true,67,68,[],[]⟩ ∧
      Reader.syntactic.statedType? remarkedFile remarkedAnnotation = some "/* b */") ∧
    ((remarkedMember 0).child? .value = some (remarkedValue 0) ∧
      Reaches (remarkedValue 0).node (remarkedValue 0).node ∧ (remarkedValue 0).node.LedByComment ∧
      Reader.syntactic.inferredType? remarkedFile (remarkedMember 0) = none) ∧
    (∃ cast, (fieldOf commentedCast).child? .value = some cast ∧
      cast.node.EndsInComment ⟨"comment",true,15,22,[],[]⟩ ∧
      Reader.syntactic.inferredType? remarkedFile (fieldOf commentedCast) = some "/* c */") ∧
    ((remarkedMember 1).child? .value = some (remarkedValue 1) ∧
      (∀ part, Reaches (remarkedValue 1).node part → ¬part.LedByComment ∧ ∀ last, ¬part.EndsInComment last) ∧
      ∃ bare, (fieldOf (remarkedValue 1).node.uncommented).child? .value = some bare ∧
        bare.node = (remarkedValue 1).node.uncommented ∧
        Reader.syntactic.inferredType? remarkedFile (remarkedMember 1) =
          Reader.syntactic.inferredType? remarkedFile (fieldOf (remarkedValue 1).node.uncommented)) ∧
    remarkedParameter.child? .pattern = some remarkedPattern ∧ remarkedPattern.node.kind = "rest_pattern" ∧
      remarkedPattern.node.said? = some ⟨"identifier",true,56,57,[],[]⟩ ∧
      Reader.syntactic.parameter remarkedFile remarkedParameter = .ok ⟨"/* a */",some "/* b */"⟩ := by
  obtain ⟨stated,inferred,named⟩ := types_commented remarkedFile
  have reading := stated remarkedAnnotation ⟨"type_identifier",true,67,68,[],[]⟩ (by decide) rfl
  have parameter := named .syntactic remarkedParameter remarkedPattern
    ⟨"identifier",true,56,57,[],[]⟩ rfl rfl rfl
  obtain ⟨led,_,_⟩ := inferred (remarkedMember 0) (remarkedValue 0) rfl
  obtain ⟨_,_,bared⟩ := inferred (remarkedMember 1) (remarkedValue 1) rfl
  obtain ⟨cast,found,there⟩ := child?_fieldOf (show Field.value ∈ commentedCast.roles by decide)
  have ends : cast.node.EndsInComment ⟨"comment",true,15,22,[],[]⟩ := there ▸ commentedCast_ends
  have role : Field.value ∈ (remarkedValue 1).node.uncommented.roles := by
    rw [Node.uncommented_roles]
    decide
  obtain ⟨bare,placed,same⟩ := child?_fieldOf role
  obtain ⟨remark,_,name,_⟩ := remarked_texts
  have first : remarkedAnnotation.node.remarks = [⟨"comment",true,59,66,[],[]⟩] := rfl
  have front : remarkedPattern.node.remarks = [⟨"comment",true,49,56,[],[]⟩] := rfl
  have type : Reader.syntactic.statedType? remarkedFile remarkedAnnotation = some "/* b */" := by
    rw [reading,first,List.headD_cons,remark]
    decide
  have around : remarkedFile.lineText ⟨"comment",true,15,22,[],[]⟩ = "/* c */" := by decide +kernel
  refine ⟨⟨by decide,rfl,type⟩,⟨rfl,.refl,remarked_led,led _ .refl remarked_led⟩,⟨cast,found,ends,?_⟩,
    ⟨rfl,remarked_plain,bare,placed,same,bared remarked_plain _ bare placed same⟩,rfl,rfl,rfl,?_⟩
  · rw [(inferred (fieldOf commentedCast) cast found).2.1 _ ends,around]
    decide
  · have typed : Reader.syntactic.typeIn? remarkedFile .type remarkedParameter = some "/* b */" := type
    rw [parameter,front,List.headD_cons,name,typed]

theorem comments_taken_for_types :
    ¬(∀ (file : SourceFile) (place : Place) (said : Node), wrapsType place.node.kind = true →
      place.node.said? = some said →
      Reader.syntactic.statedType? file place = (some (file.lineText said)).filter (· ≠ "")) ∧
    ¬(∀ (file : SourceFile) (declaration value other bare : Place), value.node.opens = true →
      declaration.child? .value = some value → other.child? .value = some bare →
      bare.node = value.node.uncommented →
      Reader.syntactic.inferredType? file declaration = Reader.syntactic.inferredType? file other) ∧
    ¬∀ (reader : Reader) (file : SourceFile) (place pattern : Place) (said : Node),
      place.child? .pattern = some pattern → pattern.node.kind = "rest_pattern" →
      pattern.node.said? = some said →
      reader.parameter file place = .ok ⟨file.text said,reader.typeIn? file .type place⟩ := by
  obtain ⟨remark,type,name,said⟩ := remarked_texts
  refine ⟨fun stated => ?_,fun inferred => ?_,fun named => ?_⟩
  · have claimed := stated remarkedFile remarkedAnnotation ⟨"type_identifier",true,67,68,[],[]⟩ (by decide) rfl
    have carried : remarkedAnnotation.node.said? = some ⟨"type_identifier",true,67,68,[],[]⟩ := rfl
    have first : remarkedAnnotation.node.remarks = [⟨"comment",true,59,66,[],[]⟩] := rfl
    rw [statedType?_of_said (by decide) carried,first,List.headD_cons,remark,type] at claimed
    exact absurd claimed (by decide)
  · have role : Field.value ∈ (remarkedValue 0).node.uncommented.roles := by
      rw [Node.uncommented_roles]
      decide
    obtain ⟨bare,there,same⟩ := child?_fieldOf role
    have claimed := inferred remarkedFile (remarkedMember 0) (remarkedValue 0) _ bare remarked_wraps.opens rfl
      there same
    have number : Reader.syntactic.inferredType? remarkedFile (fieldOf (remarkedValue 0).node.uncommented) =
        some "number" := (SourceFile.inferredType?_eq there).trans (same ▸ remarked_number)
    have found : (remarkedMember 0).child? .value = some (remarkedValue 0) := rfl
    have none : Reader.syntactic.inferredType? remarkedFile (remarkedMember 0) = none :=
      (SourceFile.inferredType?_eq found).trans (typeOf?_of_ledByComment remarked_led)
    exact absurd (none.symm.trans (claimed.trans number)) (by decide)
  · have claimed := named .syntactic remarkedFile remarkedParameter remarkedPattern
      ⟨"identifier",true,56,57,[],[]⟩ rfl rfl rfl
    rw [parameter_of_rest rfl rfl rfl] at claimed
    have names := congrArg PropertyRecord.name (Except.ok.inj claimed)
    exact absurd (name.symm.trans (names.trans said)) (by decide)

end SourceAtlas
