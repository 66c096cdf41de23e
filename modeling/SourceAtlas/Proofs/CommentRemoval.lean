import Mathlib.Data.List.TakeWhile
import SourceAtlas.Declaration.Reader
import SourceAtlas.Proofs.Nesting
import SourceAtlas.Proofs.Utf8

/-! What the removal of comments keeps of a node. Cutting in order keeps exactly what no cut covers; a
cut covers its comment and otherwise only blanks next to it. Nothing else of the text is touched. -/
namespace SourceAtlas.Syntax

def isBlankByte (byte : UInt8) : Bool := isLineTail byte || byte == 0x0A

def BlankAt (bytes : List UInt8) (position : Nat) : Prop :=
  ∃ byte, bytes[position]? = some byte ∧ isBlankByte byte = true

def Span.covers (span : Span) (position : Nat) : Bool := span.start ≤ position && position < span.stop

def Node.comments (node : Node) : List Node := node.nodes.filter isComment

/-- A position outside a comment from which only blanks lead up to it: part of a blank run that touches
the comment. -/
def TouchesByBlanks (bytes : List UInt8) (comment : Node) (position : Nat) : Prop :=
  (position < comment.start ∧ ∀ i, position ≤ i → i < comment.start → BlankAt bytes i) ∨
    (comment.stop ≤ position ∧ ∀ i, comment.stop ≤ i → i ≤ position → BlankAt bytes i)

-- Cutting

/-- Cutting keeps exactly the positions that no span covers. The position reached so far is at or after
the start of every span that was skipped, so that overlapping spans are cut once. -/
theorem keepOutside_eq_select (bytes : List UInt8) (stop position : Nat) (spans : List Span)
    (order : spans.Pairwise fun a b => a.start ≤ b.start)
    (bounds : ∀ span ∈ spans, span.start ≤ span.stop ∧ span.stop ≤ stop) :
    keepOutside bytes stop position spans =
      select (fun i => position ≤ i && i < stop && !spans.any (·.covers i)) bytes := by
  induction spans generalizing position with
  | nil => simp [keepOutside,drop_take_eq_select]
  | cons span rest ih =>
    obtain ⟨first,orderRest⟩ := List.pairwise_cons.mp order
    obtain ⟨forward,inside⟩ := bounds span (by simp)
    have boundsRest := fun other member => bounds other (List.mem_cons_of_mem span member)
    unfold keepOutside
    split
    · next overlapping =>
      rw [ih _ orderRest boundsRest]
      refine select_congr 0 fun i _ _ => ?_
      rw [List.any_cons,Bool.eq_iff_iff]
      cases rest.any (·.covers i)
      · simp [Span.covers]
        omega
      · simp
    · next apart =>
      have before (i : Nat) (low : i < span.start) : rest.any (·.covers i) = false := by
        rw [List.any_eq_false]
        intro other member
        have := first other member
        simp [Span.covers]
        omega
      rw [ih _ orderRest boundsRest,drop_take_eq_select,
        select_append_select span.start (by simp) (by simp; omega)]
      refine select_congr 0 fun i _ _ => ?_
      rw [List.any_cons,Bool.eq_iff_iff]
      rcases Nat.lt_or_ge i span.start with low | high
      · rw [before i low]
        simp [Span.covers]
        omega
      · cases rest.any (·.covers i)
        · simp [Span.covers]
          omega
        · simp [high]

theorem span_le_total (a b : Span) : (Span.le a b || Span.le b a) = true := by
  simp only [Span.le,Bool.or_eq_true,Bool.and_eq_true,decide_eq_true_eq,beq_iff_eq]
  omega

theorem span_le_trans (a b c : Span) (first : Span.le a b = true) (second : Span.le b c = true) :
    Span.le a c = true := by
  simp only [Span.le,Bool.or_eq_true,Bool.and_eq_true,decide_eq_true_eq,beq_iff_eq] at *
  omega

theorem mem_comments {node comment : Node} :
    comment ∈ node.comments ↔ comment ∈ node.nodes ∧ isComment comment = true := List.mem_filter

theorem mem_cuts_iff {bytes : List UInt8} {node : Node} {cut : Span} :
    cut ∈ cuts bytes node ↔ ∃ comment ∈ node.comments,
      comment.span.within node.span = true ∧ widen bytes node.span comment.span = cut := by
  simp only [cuts,List.mem_mergeSort,List.mem_map,List.mem_filter,Bool.and_eq_true,mem_comments,and_assoc]

theorem mem_cuts {bytes : List UInt8} {node : Node} {cut : Span} (nested : node.Nested) :
    cut ∈ cuts bytes node ↔ ∃ comment ∈ node.comments, widen bytes node.span comment.span = cut := by
  rw [mem_cuts_iff]
  apply exists_congr
  intro comment
  apply and_congr_right
  intro inside
  obtain ⟨low,high⟩ := nested.within (mem_comments.mp inside).1
  exact and_iff_right (Bool.and_eq_true_iff.mpr ⟨decide_eq_true low,decide_eq_true high⟩)

theorem cuts_ordered (bytes : List UInt8) (node : Node) :
    (cuts bytes node).Pairwise fun a b => a.start ≤ b.start := by
  refine (List.pairwise_mergeSort span_le_trans span_le_total _).imp fun {a b} le => ?_
  simp only [Span.le,Bool.or_eq_true,Bool.and_eq_true,decide_eq_true_eq,beq_iff_eq] at le
  omega

-- Widening

/-- What widening makes of the span of a comment: it stays within the node and adds blanks only. -/
structure Widened (bytes : List UInt8) (outer comment cut : Span) : Prop where
  low : outer.start ≤ cut.start
  before : cut.start ≤ comment.start
  after : comment.stop ≤ cut.stop
  high : cut.stop ≤ outer.stop
  blankBefore : ∀ i, cut.start ≤ i → i < comment.start → BlankAt bytes i
  blankAfter : ∀ i, comment.stop ≤ i → i < cut.stop → BlankAt bytes i

private theorem getElem?_takeWhile {α : Type} {test : α → Bool} {items : List α} {i : Nat}
    (inside : i < (items.takeWhile test).length) : ∃ item, items[i]? = some item ∧ test item = true := by
  refine ⟨(items.takeWhile test)[i],?_,List.mem_takeWhile_imp (List.getElem_mem inside)⟩
  conv_lhs => rw [← List.takeWhile_append_dropWhile (p := test) (l := items)]
  rw [List.getElem?_append_left inside,List.getElem?_eq_getElem inside]

theorem indentStart_le (bytes : List UInt8) (low position : Nat) :
    indentStart bytes low position ≤ position := Nat.sub_le _ _

theorem le_indentStart (bytes : List UInt8) {low position : Nat} (ordered : low ≤ position) :
    low ≤ indentStart bytes low position := by
  have size := (List.takeWhile_sublist isIndent (l := ((bytes.take position).drop low).reverse)).length_le
  simp only [List.length_reverse,List.length_drop,List.length_take] at size
  unfold indentStart
  omega

theorem indent_of_indentStart_le {bytes : List UInt8} {low position i : Nat} (ordered : low ≤ position)
    (bounded : position ≤ bytes.length) (above : indentStart bytes low position ≤ i)
    (below : i < position) : ∃ byte, bytes[i]? = some byte ∧ isIndent byte = true := by
  have size : ((bytes.take position).drop low).length = position - low := by simp; omega
  have start := le_indentStart bytes ordered
  have inside : position - 1 - i < (((bytes.take position).drop low).reverse.takeWhile isIndent).length := by
    unfold indentStart at above start
    omega
  obtain ⟨byte,read,indent⟩ := getElem?_takeWhile inside
  rw [List.getElem?_reverse (by omega),size,List.getElem?_drop,List.getElem?_take_of_lt (by omega)] at read
  have index : low + (position - low - 1 - (position - 1 - i)) = i := by omega
  exact ⟨byte,index ▸ read,indent⟩

theorem le_tailStop (bytes : List UInt8) (position high : Nat) : position ≤ tailStop bytes position high :=
  Nat.le_add_right _ _

theorem lineTail_of_lt_tailStop {bytes : List UInt8} {position high i : Nat} (above : position ≤ i)
    (below : i < tailStop bytes position high) :
    ∃ byte, bytes[i]? = some byte ∧ isLineTail byte = true := by
  have inside : i - position < (((bytes.take high).drop position).takeWhile isLineTail).length := by
    unfold tailStop at below
    omega
  obtain ⟨byte,read,tail⟩ := getElem?_takeWhile inside
  have index : position + (i - position) = i := by omega
  rw [List.getElem?_drop,index,List.getElem?_take] at read
  split at read
  · exact ⟨byte,read,tail⟩
  · simp at read

theorem blankAt_of_indent {bytes : List UInt8} {i : Nat}
    (indent : ∃ byte, bytes[i]? = some byte ∧ isIndent byte = true) : BlankAt bytes i := by
  obtain ⟨byte,read,indent⟩ := indent
  exact ⟨byte,read,by simp [isBlankByte,isLineTail,indent]⟩

theorem blankAt_of_lineTail {bytes : List UInt8} {i : Nat}
    (tail : ∃ byte, bytes[i]? = some byte ∧ isLineTail byte = true) : BlankAt bytes i := by
  obtain ⟨byte,read,tail⟩ := tail
  exact ⟨byte,read,by simp [isBlankByte,tail]⟩

theorem widen_widened {bytes : List UInt8} {outer comment : Span} (forward : comment.start ≤ comment.stop)
    (low : outer.start ≤ comment.start) (high : comment.stop ≤ outer.stop)
    (bounded : outer.stop ≤ bytes.length) : Widened bytes outer comment (widen bytes outer comment) := by
  have before (i : Nat) (above : indentStart bytes outer.start comment.start ≤ i)
      (below : i < comment.start) : BlankAt bytes i :=
    blankAt_of_indent (indent_of_indentStart_le low (by omega) above below)
  have after (i : Nat) (above : comment.stop ≤ i) (below : i < tailStop bytes comment.stop outer.stop) :
      BlankAt bytes i := blankAt_of_lineTail (lineTail_of_lt_tailStop above below)
  have lowStart := le_indentStart bytes low
  have startLow := indentStart_le bytes outer.start comment.start
  have stopHigh := le_tailStop bytes comment.stop outer.stop
  -- The whole line goes, or the comment alone, or the comment with the blanks before it.
  unfold widen
  dsimp only
  split
  · split
    · next wholeLine =>
      obtain ⟨inside,lineFeed⟩ := wholeLine
      refine ⟨lowStart,startLow,by dsimp only; omega,inside,before,fun i above below => ?_⟩
      rcases Nat.lt_succ_iff_lt_or_eq.mp below with tail | rfl
      · exact after i above tail
      · exact ⟨0x0A,lineFeed,rfl⟩
    · exact ⟨low,Nat.le_refl _,Nat.le_refl _,high,fun i above below => by omega,
        fun i above below => by omega⟩
  · exact ⟨lowStart,startLow,Nat.le_refl _,high,before,fun i above below => by dsimp only at below; omega⟩

-- What is kept

def isKept (bytes : List UInt8) (node : Node) (position : Nat) : Bool :=
  !(cuts bytes node).any (·.covers position)

section Kept

variable {bytes : List UInt8} {node : Node} (nested : node.Nested) (bounded : node.stop ≤ bytes.length)
include nested bounded

theorem widened_of_comment {comment : Node} (member : comment ∈ node.comments) :
    Widened bytes node.span comment.span (widen bytes node.span comment.span) := by
  obtain ⟨below,_⟩ := mem_comments.mp member
  obtain ⟨low,high⟩ := nested.within below
  exact widen_widened (nested.forward comment below) low high bounded

theorem withoutComments_eq_select :
    withoutComments bytes node = select (fun i => node.span.covers i && isKept bytes node i) bytes := by
  refine keepOutside_eq_select bytes node.stop node.start _ (cuts_ordered bytes node) fun cut member => ?_
  obtain ⟨comment,inside,rfl⟩ := (mem_cuts nested).mp member
  have widened := widened_of_comment nested bounded inside
  have forward := nested.forward comment (mem_comments.mp inside).1
  exact ⟨Nat.le_trans widened.before (Nat.le_trans forward widened.after),widened.high⟩

theorem not_isKept_of_comment {comment : Node} (member : comment ∈ node.comments) {i : Nat}
    (covered : comment.span.covers i = true) : isKept bytes node i = false := by
  have widened := widened_of_comment nested bounded member
  simp only [Span.covers,Bool.and_eq_true,decide_eq_true_eq] at covered
  rw [isKept,Bool.not_eq_false',List.any_eq_true]
  refine ⟨_,(mem_cuts nested).mpr ⟨comment,member,rfl⟩,?_⟩
  have low := Nat.le_trans widened.before covered.1
  have high := Nat.lt_of_lt_of_le covered.2 widened.after
  simp [Span.covers,low,high]

/-- A position that is cut lies in a comment or in blanks that touch one. -/
theorem comment_of_not_isKept {i : Nat} (cut : isKept bytes node i = false) :
    ∃ comment ∈ node.comments, comment.span.covers i = true ∨ TouchesByBlanks bytes comment i := by
  rw [isKept,Bool.not_eq_false',List.any_eq_true] at cut
  obtain ⟨span,member,covered⟩ := cut
  obtain ⟨comment,inside,rfl⟩ := (mem_cuts nested).mp member
  have widened := widened_of_comment nested bounded inside
  simp only [Span.covers,Bool.and_eq_true,decide_eq_true_eq] at covered
  refine ⟨comment,inside,?_⟩
  rcases Nat.lt_or_ge i comment.start with before | start
  · exact .inr (.inl ⟨before,fun j above below =>
      widened.blankBefore j (Nat.le_trans covered.1 above) below⟩)
  · rcases Nat.lt_or_ge i comment.stop with inner | after
    · exact .inl (by simp [Span.covers,Node.span,start,inner])
    · exact .inr (.inr ⟨after,fun j above below =>
        widened.blankAfter j above (Nat.lt_of_le_of_lt below covered.2)⟩)

theorem filter_withoutComments :
    (withoutComments bytes node).filter (!isBlankByte ·) =
      (select (fun i => node.span.covers i && !node.comments.any (·.span.covers i)) bytes).filter
        (!isBlankByte ·) := by
  rw [withoutComments_eq_select nested bounded]
  refine filter_select_congr 0 fun i byte read solid => ?_
  rw [Nat.zero_add]
  congr 1
  cases covered : node.comments.any (·.span.covers i) with
  | true =>
    obtain ⟨comment,member,covers⟩ := List.any_eq_true.mp covered
    exact not_isKept_of_comment nested bounded member covers
  | false =>
    by_contra cut
    obtain ⟨comment,member,covers | blanks⟩ :=
      comment_of_not_isKept nested bounded (i := i) (by simpa using cut)
    · exact List.any_eq_false.mp covered comment member covers
    · have blank : BlankAt bytes i := by
        rcases blanks with ⟨before,run⟩ | ⟨after,run⟩
        · exact run i (Nat.le_refl _) before
        · exact run i after (Nat.le_refl _)
      obtain ⟨other,same,isBlank⟩ := blank
      cases Option.some.inj (read.symm.trans same)
      simp [isBlank] at solid

end Kept

-- Characters

theorem ascii_of_blankAt {bytes : List UInt8} {i : Nat} (blank : BlankAt bytes i) :
    ∃ byte, bytes[i]? = some byte ∧ byte.toNat < 0x80 := by
  obtain ⟨byte,read,isBlank⟩ := blank
  refine ⟨byte,read,?_⟩
  simp only [isBlankByte,isLineTail,isIndent,Bool.or_eq_true,beq_iff_eq] at isBlank
  rcases isBlank with ((rfl | rfl) | rfl) | rfl <;> decide

theorem Widened.boundaries {text : List Char} {outer comment cut : Span}
    (widened : Widened (Utf8.encode text) outer comment cut)
    (start : Utf8.IsBoundary text comment.start) (stop : Utf8.IsBoundary text comment.stop) :
    Utf8.IsBoundary text cut.start ∧ Utf8.IsBoundary text cut.stop := by
  constructor
  · exact Utf8.boundary_before widened.before start fun i above below =>
      ascii_of_blankAt (widened.blankBefore i above below)
  · exact Utf8.boundary_after widened.after stop fun i above below =>
      ascii_of_blankAt (widened.blankAfter i above below)

theorem covers_of_boundaries {text : List Char} (span : Span) {c : Char} {position i : Nat}
    (start : Utf8.IsBoundary text span.start) (stop : Utf8.IsBoundary text span.stop)
    (inside : (c,position) ∈ Utf8.placed 0 text) (above : position ≤ i)
    (below : i < position + c.utf8Size) : span.covers i = span.covers position := by
  have first := Utf8.boundary_beside start inside
  have last := Utf8.boundary_beside stop inside
  rw [Bool.eq_iff_iff]
  simp only [Span.covers,Bool.and_eq_true,decide_eq_true_eq]
  omega

theorem withoutComments_encode {text : List Char} {node : Node} (nested : node.Nested)
    (bounded : node.stop ≤ (Utf8.encode text).length)
    (start : Utf8.IsBoundary text node.start) (stop : Utf8.IsBoundary text node.stop)
    (around : ∀ comment ∈ node.comments,
      Utf8.IsBoundary text comment.start ∧ Utf8.IsBoundary text comment.stop) :
    withoutComments (Utf8.encode text) node = Utf8.encode (Utf8.selectCharacters
      (fun i => node.span.covers i && isKept (Utf8.encode text) node i) text) := by
  rw [withoutComments_eq_select nested bounded]
  apply Utf8.select_encode 0
  intro c position inside i above below
  have own := covers_of_boundaries node.span start stop inside above below
  have same : isKept (Utf8.encode text) node i = isKept (Utf8.encode text) node position := by
    unfold isKept
    rw [Bool.not_inj_iff,Bool.eq_iff_iff,List.any_eq_true,List.any_eq_true]
    apply exists_congr
    intro cut
    apply and_congr_right
    intro member
    obtain ⟨comment,inComments,rfl⟩ := (mem_cuts nested).mp member
    obtain ⟨first,last⟩ := around comment inComments
    obtain ⟨cutStart,cutStop⟩ := (widened_of_comment nested bounded inComments).boundaries first last
    rw [covers_of_boundaries _ cutStart cutStop inside above below]
  rw [own,same]

theorem withoutComments_of_no_comments {file : SourceFile} {node : Node} (nested : node.Nested)
    (none : node.comments = []) : withoutComments file.bytes node = file.slice node.start node.stop := by
  have uncut : cuts file.bytes node = [] := by
    apply List.eq_nil_iff_forall_not_mem.mpr
    intro cut member
    obtain ⟨comment,inside,_⟩ := (mem_cuts nested).mp member
    rw [none] at inside
    exact List.not_mem_nil inside
  rw [withoutComments,uncut,keepOutside,SourceFile.slice,List.drop_take]

/-- A tree as a parser makes it of a text: its nodes nest and lie within the text. -/
structure SourceFile.Parsed (file : SourceFile) : Prop where
  nested : file.tree.Nested
  bounded : file.tree.stop ≤ file.bytes.length

/-- What the removal of comments keeps of a place, when `kept` tells the positions that are kept.
`blanks` allows nothing else to be lost than blanks that touch a comment. -/
structure CommentsRemoved (file : SourceFile) (place : Place) (kept : Nat → Bool) : Prop where
  selected : withoutComments file.bytes place.node =
    select (fun i => place.node.span.covers i && kept i) file.bytes
  comments : ∀ comment ∈ place.node.comments, ∀ i, comment.span.covers i = true → kept i = false
  blanks : ∀ i, place.node.span.covers i = true → kept i = false → ∃ comment ∈ place.node.comments,
    comment.span.covers i = true ∨ TouchesByBlanks file.bytes comment i
  code : (withoutComments file.bytes place.node).filter (!isBlankByte ·) =
    (select (fun i => place.node.span.covers i && !place.node.comments.any (·.span.covers i))
      file.bytes).filter (!isBlankByte ·)
  characters : ∀ text, file.bytes = Utf8.encode text →
    Utf8.IsBoundary text place.node.start → Utf8.IsBoundary text place.node.stop →
    (∀ comment ∈ place.node.comments,
      Utf8.IsBoundary text comment.start ∧ Utf8.IsBoundary text comment.stop) →
    let characters := Utf8.selectCharacters (fun i => place.node.span.covers i && kept i) text
    Utf8.decode? (withoutComments file.bytes place.node) = some characters ∧
      Reader.syntactic.print .removed file place = .ok (String.ofList (Text.trimEnd characters)) ∧
      (place.node.comments = [] → Reader.syntactic.print .removed file place =
        .ok (String.ofList (Text.trimEnd (file.text place.node).toList)))

/-- Printing without comments loses no code and keeps no comment. -/
theorem print_removed_exact (file : SourceFile) (place : Place) (parsed : file.Parsed)
    (inTree : place.node ∈ file.tree.nodes) : ∃ kept, CommentsRemoved file place kept := by
  have nested := parsed.nested.of_mem inTree
  have bounded : place.node.stop ≤ file.bytes.length :=
    Nat.le_trans (parsed.nested.within inTree).2 parsed.bounded
  refine ⟨isKept file.bytes place.node,?_,?_,?_,?_,?_⟩
  · exact withoutComments_eq_select nested bounded
  · intro comment member i covered
    exact not_isKept_of_comment nested bounded member covered
  · intro i _ cut
    exact comment_of_not_isKept nested bounded cut
  · exact filter_withoutComments nested bounded
  · intro text encoded start stop around
    have assembled : withoutComments file.bytes place.node = Utf8.encode (Utf8.selectCharacters
        (fun i => place.node.span.covers i && isKept file.bytes place.node i) text) := by
      rw [encoded] at bounded ⊢
      exact withoutComments_encode nested bounded start stop around
    have printed : Reader.syntactic.print .removed file place =
        .ok (String.ofList (Text.trimEnd (Utf8.selectCharacters
          (fun i => place.node.span.covers i && isKept file.bytes place.node i) text))) := by
      change Except.ok (file.textWithoutComments place.node) = _
      rw [SourceFile.textWithoutComments,assembled,Utf8.decodeLossy_encode]
    have decoded := Utf8.decode?_encode (Utf8.selectCharacters
      (fun i => place.node.span.covers i && isKept file.bytes place.node i) text)
    rw [← assembled] at decoded
    refine ⟨decoded,printed,fun none => ?_⟩
    rw [withoutComments_of_no_comments nested none] at decoded
    rw [printed,SourceFile.text,decoded,String.toList_ofList]

def remarks : List Char := "a /* é */\n// x\nb".toList

def remarksTree : Node :=
  ⟨"program",true,0,17,[],[⟨"identifier",true,0,1,[],[]⟩,⟨"comment",true,2,10,[],[]⟩,
    ⟨"comment",true,11,15,[],[]⟩,⟨"identifier",true,16,17,[],[]⟩]⟩

def remarksFile : SourceFile := ⟨⟨"a.ts"⟩,Utf8.encode remarks,remarksTree⟩

theorem print_removed_exact_remarks : remarksFile.Parsed ∧ remarksTree ∈ remarksFile.tree.nodes ∧
    ∃ kept, CommentsRemoved remarksFile (.root remarksTree) kept ∧
      Reader.syntactic.print .removed remarksFile (.root remarksTree) = .ok (String.ofList
        (Text.trimEnd (Utf8.selectCharacters (fun i => remarksTree.span.covers i && kept i) remarks))) := by
  have parsed : remarksFile.Parsed := by
    refine ⟨⟨?_,?_⟩,by decide⟩
    · simp [remarksFile,remarksTree,Node.nodes_eq]
    · simp [remarksFile,remarksTree,Node.nodes_eq]
  have member : remarksTree ∈ remarksFile.tree.nodes := remarksTree.mem_nodes_self
  have boundary (n : Nat) : Utf8.IsBoundary remarks (Utf8.encode (remarks.take n)).length :=
    ⟨remarks.take n,remarks.drop n,(List.take_append_drop n remarks).symm,rfl⟩
  have around : ∀ comment ∈ remarksTree.comments,
      Utf8.IsBoundary remarks comment.start ∧ Utf8.IsBoundary remarks comment.stop := by
    suffices (Utf8.IsBoundary remarks 2 ∧ Utf8.IsBoundary remarks 10) ∧
        Utf8.IsBoundary remarks 11 ∧ Utf8.IsBoundary remarks 15 by
      simpa [Node.comments,Node.nodes_eq,remarksTree,isComment] using this
    exact ⟨⟨boundary 2,boundary 9⟩,boundary 10,boundary 14⟩
  obtain ⟨kept,removed⟩ := print_removed_exact remarksFile (.root remarksTree) parsed member
  exact ⟨parsed,member,kept,removed,
    (removed.characters remarks rfl (boundary 0) (boundary 16) around).2.1⟩

end SourceAtlas.Syntax
