import SourceAtlas.Proofs.Description
import SourceAtlas.Syntax.Source

/-! Where the documentation of a declaration comes from. It is read from the run of comments that ends
directly before the declaration, or before the export statement around it, and from nothing else. -/
namespace SourceAtlas.Syntax

open Text

variable {tree : Node} {place outer below anchor : Place} {siblings run : List Node}

-- Places of a tree

/-- The places of a tree, each with the siblings before it in source order. -/
inductive Stands (tree : Node) : (siblings : List Node) → Place → Prop
  | root : Stands tree [] (.root tree)
  | child {earlier siblings later : List Node} {node : Node} {parent : Place}
      (stands : Stands tree earlier parent) (children : parent.node.children = siblings ++ node :: later) :
      Stands tree siblings ⟨node,⟨parent.node,siblings.reverse⟩ :: parent.above⟩

theorem Stands.earlier_eq (stands : Stands tree siblings place) : place.earlier = siblings.reverse := by
  cases stands with
  | root => rfl
  | child stands children => rfl

theorem Stands.parent (stands : Stands tree siblings place) (above : place.parent? = some outer) :
    ∃ earlier, Stands tree earlier outer := by
  cases stands with
  | root => cases above
  | child stands children =>
    cases above
    exact ⟨_,stands⟩

theorem mem_childrenFrom_iff {before nodes : List Node} : below ∈ place.childrenFrom before nodes ↔
    ∃ front node back, nodes = front ++ node :: back ∧
      below = ⟨node,⟨place.node,front.reverse ++ before⟩ :: place.above⟩ := by
  induction nodes generalizing before with
  | nil => simp [Place.childrenFrom]
  | cons first nodes ih =>
    rw [Place.childrenFrom,List.mem_cons,ih]
    constructor
    · rintro (rfl | ⟨front,node,back,rfl,rfl⟩)
      · exact ⟨[],first,nodes,rfl,rfl⟩
      · exact ⟨first :: front,node,back,rfl,by simp⟩
    · rintro ⟨front,node,back,parted,rfl⟩
      cases front with
      | nil =>
        cases parted
        exact .inl rfl
      | cons _ front =>
        cases parted
        exact .inr ⟨front,node,back,rfl,by simp⟩

theorem mem_places_iff :
    below ∈ place.places ↔ below = place ∨ ∃ child ∈ place.children, below ∈ child.places := by
  rw [Place.places,List.attach_map_val,List.mem_cons,← List.flatMap_def,List.mem_flatMap]

theorem mem_places_of_mem_children (inside : outer ∈ place.places) (step : below ∈ outer.children) :
    below ∈ place.places := by
  induction place using Place.places.induct with
  | case1 place ih =>
    rcases mem_places_iff.mp inside with rfl | ⟨child,first,deeper⟩
    · exact mem_places_iff.mpr (.inr ⟨below,step,mem_places_iff.mpr (.inl rfl)⟩)
    · exact mem_places_iff.mpr (.inr ⟨child,first,ih ⟨child,first⟩ deeper⟩)

theorem stands_of_mem_places (stands : Stands tree siblings place) (inside : below ∈ place.places) :
    ∃ earlier, Stands tree earlier below := by
  induction place using Place.places.induct generalizing siblings with
  | case1 place ih =>
    rcases mem_places_iff.mp inside with rfl | ⟨child,first,deeper⟩
    · exact ⟨siblings,stands⟩
    · obtain ⟨front,node,back,children,rfl⟩ := mem_childrenFrom_iff.mp first
      have next := stands.child children
      rw [← List.append_nil front.reverse] at next
      exact ih ⟨_,first⟩ next deeper

/-- The places listed for a tree are all that stand in it. -/
theorem mem_places_root_iff : place ∈ (Place.root tree).places ↔ ∃ siblings, Stands tree siblings place := by
  constructor
  · exact stands_of_mem_places .root
  · rintro ⟨siblings,stands⟩
    induction stands with
    | root => exact mem_places_iff.mpr (.inl rfl)
    | child stands children ih =>
      refine mem_places_of_mem_children ih (mem_childrenFrom_iff.mpr ⟨_,_,_,children,?_⟩)
      rw [List.append_nil]

-- The run of comments

/-- Documentation stands before the export statement that a place is a child of, or before the place. -/
inductive Anchors : (place anchor : Place) → Prop
  | exported {place parent : Place} (above : place.parent? = some parent)
      (kind : parent.node.kind = "export_statement") : Anchors place parent
  | bare {place : Place}
      (other : ∀ parent, place.parent? = some parent → parent.node.kind ≠ "export_statement") :
      Anchors place place

theorem anchors_iff : Anchors place anchor ↔ anchor = place.anchor := by
  constructor
  · intro anchors
    cases anchors with
    | exported above kind => simp [Place.anchor,above,kind]
    | bare other =>
      unfold Place.anchor
      split
      · next parent above => rw [if_neg (other parent above)]
      · rfl
  · rintro rfl
    unfold Place.anchor
    split
    · next parent above =>
      split
      · next kind => exact .exported above kind
      · next kind =>
        refine .bare fun other same => ?_
        cases above.symm.trans same
        exact kind
    · next above =>
      refine .bare fun other same => ?_
      cases above.symm.trans same

/-- The longest run of comments at the end of some siblings: before it stands nothing, or a node that is
no comment. -/
structure EndsIn (siblings run : List Node) : Prop where
  comments : ∀ node ∈ run, node.kind = "comment"
  stops : ∃ rest, siblings = rest ++ run ∧ ∀ node ∈ rest.getLast?, node.kind ≠ "comment"

theorem isComment_iff {node : Node} : isComment node = true ↔ node.kind = "comment" := beq_iff_eq

theorem endsIn_iff : EndsIn siblings run ↔ run = siblings.rtakeWhile isComment := by
  constructor
  · rintro ⟨comments,rest,rfl,stops⟩
    have walked : ∀ node ∈ run.reverse, isComment node = true := by
      intro node inside
      exact isComment_iff.mpr (comments node (List.mem_reverse.mp inside))
    have stopped : rest.reverse.takeWhile isComment = [] := by
      apply List.reverse_eq_nil_iff.mp
      apply List.rtakeWhile_eq_nil_iff.mpr
      intro some comment
      exact stops _ (List.getLast?_eq_some_getLast some) (isComment_iff.mp comment)
    rw [List.rtakeWhile,List.reverse_append,List.takeWhile_append_of_pos walked,stopped,List.append_nil,
      List.reverse_reverse]
  · rintro rfl
    refine ⟨fun node inside => isComment_iff.mp (List.mem_rtakeWhile_imp inside),
      siblings.rdropWhile isComment,List.rdropWhile_append_rtakeWhile.symm,?_⟩
    intro node last comment
    have other := not_test_of_mem_getLast?_rdropWhile isComment siblings node last
    exact absurd (isComment_iff.mpr comment) (by simp [other])

/-- The run of comments that documents a place. -/
def Documents (tree : Node) (run : List Node) (place : Place) : Prop :=
  ∃ anchor siblings, Anchors place anchor ∧ Stands tree siblings anchor ∧ EndsIn siblings run

theorem Stands.commentsBefore_eq (stands : Stands tree siblings place) :
    place.commentsBefore = siblings.rtakeWhile isComment := by
  rw [Place.commentsBefore,stands.earlier_eq]
  rfl

theorem Documents.eq (documents : Documents tree run place) : run = place.anchor.commentsBefore := by
  obtain ⟨anchor,siblings,anchors,stands,ends⟩ := documents
  cases anchors_iff.mp anchors
  rw [stands.commentsBefore_eq]
  exact endsIn_iff.mp ends

theorem exists_documents (inside : place ∈ (Place.root tree).places) :
    Documents tree place.anchor.commentsBefore place := by
  obtain ⟨earlier,stands⟩ := mem_places_root_iff.mp inside
  obtain ⟨anchor,named⟩ : ∃ anchor, anchor = place.anchor := ⟨_,rfl⟩
  have anchors := anchors_iff.mpr named
  have anchored : ∃ siblings, Stands tree siblings anchor := by
    cases anchors with
    | exported above kind => exact stands.parent above
    | bare other => exact ⟨earlier,stands⟩
  obtain ⟨siblings,anchored⟩ := anchored
  rw [← named]
  exact ⟨anchor,siblings,anchors,anchored,endsIn_iff.mpr anchored.commentsBefore_eq⟩

/-- What the documentation blocks among some comments say, less those that say nothing. -/
def descriptions (comments : List String) : List (List Char) :=
  (((comments.map String.toList).filter fun text =>
    decide (['/','*','*'] <+: text ∧ ¬['/','*','*','/'] <+: text)).map description).filter (· ≠ [])

theorem filterMap_description? (file : SourceFile) (run : List Node) :
    (run.filterMap fun comment => description? (file.text comment).toList) =
      descriptions (run.map file.text) := by
  induction run with
  | nil => rfl
  | cons comment run ih =>
    rw [List.filterMap_cons,ih]
    simp only [descriptions,List.map_cons,List.filter_cons,← isDocumentation_iff,description?]
    cases isDocumentation (file.text comment).toList with
    | false => simp
    | true =>
      by_cases silent : description (file.text comment).toList = [] <;> simp [silent]

/-- The documentation of a place joins what the blocks of one run of comments say. Wherever else a run
reads the same, the documentation is the same. -/
theorem documentation_exact {file : SourceFile} (inside : place ∈ file.root.places) :
    ∃ run, Documents file.tree run place ∧
      file.documentation place = String.ofList (joinWith ['\n'] (descriptions (run.map file.text))) ∧
      ∀ (other : SourceFile) (elsewhere : Place) (otherRun : List Node),
        Documents other.tree otherRun elsewhere → otherRun.map other.text = run.map file.text →
        other.documentation elsewhere = file.documentation place := by
  have reads (file : SourceFile) (place : Place) : file.documentation place =
      String.ofList (joinWith ['\n'] (descriptions (place.anchor.commentsBefore.map file.text))) := by
    rw [← filterMap_description?]
    rfl
  refine ⟨place.anchor.commentsBefore,exists_documents inside,reads file place,?_⟩
  intro other elsewhere otherRun documents same
  rw [documents.eq] at same
  rw [reads other elsewhere,reads file place,same]

def blocks : List Char :=
  "/** Old. */ x; /** A. */ /* plain */ /***/ // x\n/** B.\n * C. */\nexport class D \x7b\x7d".toList

def blockNodes : List Node := [
  ⟨"comment",true,0,11,[],[]⟩,
  ⟨"expression_statement",true,12,14,[],[⟨"identifier",true,12,13,[],[]⟩,⟨";",false,13,14,[],[]⟩]⟩,
  ⟨"comment",true,15,24,[],[]⟩,⟨"comment",true,25,36,[],[]⟩,⟨"comment",true,37,42,[],[]⟩,
  ⟨"comment",true,43,47,[],[]⟩,⟨"comment",true,48,63,[],[]⟩]

def blocksClass : Node :=
  ⟨"class_declaration",true,71,81,[.declaration],[
    ⟨"class",false,71,76,[],[]⟩,⟨"type_identifier",true,77,78,[.name],[]⟩,
    ⟨"class_body",true,79,81,[.body],[⟨"\x7b",false,79,80,[],[]⟩,⟨"\x7d",false,80,81,[],[]⟩]⟩]⟩

def blocksExport : Node := ⟨"export_statement",true,64,81,[],[⟨"export",false,64,70,[],[]⟩,blocksClass]⟩

def blocksFile : SourceFile :=
  ⟨⟨"a.ts"⟩,Utf8.encode blocks,⟨"program",true,0,81,[],blockNodes ++ [blocksExport]⟩⟩

def blocksPlace : Place := ⟨blocksClass,
  [⟨blocksExport,[⟨"export",false,64,70,[],[]⟩]⟩,⟨blocksFile.tree,blockNodes.reverse⟩]⟩

theorem documentation_exact_blocks : blocksPlace ∈ blocksFile.root.places ∧
    (∃ run, Documents blocksFile.tree run blocksPlace ∧ run.map blocksFile.text =
        ["/** A. */","/* plain */","/***/","// x","/** B.\n * C. */"] ∧
      blocksFile.documentation blocksPlace =
        String.ofList (joinWith ['\n'] (descriptions (run.map blocksFile.text)))) ∧
    blocksFile.documentation blocksPlace = "A.\nB.\nC." := by
  have exported : Stands blocksFile.tree blockNodes ⟨blocksExport,[⟨blocksFile.tree,blockNodes.reverse⟩]⟩ :=
    Stands.root.child rfl
  have inside : blocksPlace ∈ blocksFile.root.places :=
    mem_places_root_iff.mpr ⟨[⟨"export",false,64,70,[],[]⟩],exported.child rfl⟩
  obtain ⟨run,documents,reads,_⟩ := documentation_exact inside
  refine ⟨inside,⟨run,documents,?_,reads⟩,by decide +kernel⟩
  rw [documents.eq]
  decide +kernel

end SourceAtlas.Syntax
