import Mathlib.Data.List.Destutter
import SourceAtlas.Proofs.CommentRemoval
import SourceAtlas.Proofs.FirstFault

/-! Removing comments by positions. Each byte is read, and each piece of text is taken, through a check that
fails outside of the text. No check fails, and the outcome is the removal of the comments. -/
namespace SourceAtlas.Syntax

variable {bytes : List UInt8} {outer comment span : Span} {node : Node} {position : Nat} {byte : UInt8}

-- Checked access

/-- The byte at a position, if the position is both in the text and in the span. -/
def byteWithin? (bytes : List UInt8) (outer : Span) (position : Nat) : Option UInt8 :=
  if outer.covers position then bytes[position]? else none

/-- The byte before a position. There is none before the first one. -/
def byteBefore? (bytes : List UInt8) (outer : Span) : (position : Nat) → Option UInt8
  | 0 => none
  | position + 1 => byteWithin? bytes outer position

/-- The bytes from `start` up to `stop`, if these are in order and in the text. -/
def slice? (bytes : List UInt8) (start stop : Nat) : Option (List UInt8) :=
  if start ≤ stop ∧ stop ≤ bytes.length then some ((bytes.take stop).drop start) else none

/-- Steps back over spaces and tabs, at most to the start of the span. -/
def indentStart? (bytes : List UInt8) (outer : Span) : (position : Nat) → Option Nat
  | 0 => some 0
  | position + 1 =>
    if outer.start < position + 1 then
      (byteWithin? bytes outer position).bind fun byte =>
        if isIndent byte then indentStart? bytes outer position else some (position + 1)
    else some (position + 1)

/-- Steps on over spaces, tabs and carriage returns, at most to the end of the span. -/
def tailStop? (bytes : List UInt8) (outer : Span) (position : Nat) : Option Nat :=
  if position < outer.stop then
    (byteWithin? bytes outer position).bind fun byte =>
      if isLineTail byte then tailStop? bytes outer (position + 1) else some position
  else some position
termination_by outer.stop - position

def startsLine? (bytes : List UInt8) (outer : Span) (start : Nat) : Option Bool :=
  if start = outer.start then some true else (byteBefore? bytes outer start).map (· == 0x0A)

def endsLine? (bytes : List UInt8) (outer : Span) (stop : Nat) : Option Bool :=
  if stop < outer.stop then (byteWithin? bytes outer stop).map (· == 0x0A) else some false

/-- The span that a comment takes out. The end of its line is looked at only if its line starts with it. -/
def widen? (bytes : List UInt8) (outer comment : Span) : Option Span := do
  let start ← indentStart? bytes outer comment.start
  let stop ← tailStop? bytes outer comment.stop
  let owned ← startsLine? bytes outer start
  if owned then
    (endsLine? bytes outer stop).map fun ended => if ended then ⟨start,stop + 1⟩ else comment
  else some ⟨start,comment.stop⟩

/-- How far cutting has come, and what it has kept so far. -/
structure Cutting where
  position : Nat
  kept : List UInt8

/-- Cuts out a span. If it starts before the position reached, nothing is between the two to be kept. -/
def Cutting.cut? (bytes : List UInt8) (cutting : Cutting) (span : Span) : Option Cutting :=
  if span.start < cutting.position then some ⟨max cutting.position span.stop,cutting.kept⟩
  else (slice? bytes cutting.position span.start).map fun piece => ⟨span.stop,cutting.kept ++ piece⟩

/-- The bytes of a node without its comments: spans are found, put in order, without repetitions, and cut
out one by one. -/
def withoutComments? (bytes : List UInt8) (node : Node) : Option (List UInt8) := do
  let comments := node.comments.filter (·.span.within node.span)
  let spans ← comments.mapM fun comment => widen? bytes node.span comment.span
  let spans := (spans.mergeSort Span.le).destutter (· ≠ ·)
  let cutting ← spans.foldlM (Cutting.cut? bytes) ⟨node.start,[]⟩
  let rest ← slice? bytes cutting.position node.stop
  return cutting.kept ++ rest

-- Margins

theorem covers_of_le (low : outer.start ≤ position) (high : position < outer.stop) :
    outer.covers position = true := by simp [Span.covers,low,high]

theorem exists_byteWithin? (low : outer.start ≤ position) (high : position < outer.stop)
    (bounded : outer.stop ≤ bytes.length) :
    ∃ byte, bytes[position]? = some byte ∧ byteWithin? bytes outer position = some byte := by
  have read := List.getElem?_eq_getElem (Nat.lt_of_lt_of_le high bounded)
  exact ⟨_,read,by rw [byteWithin?,if_pos (covers_of_le low high),read]⟩

theorem indentStart_of_le {low : Nat} (before : position ≤ low) : indentStart bytes low position = position := by
  have none : (bytes.take position).drop low = [] :=
    List.drop_eq_nil_of_le (Nat.le_trans (List.length_take_le _ _) before)
  rw [indentStart,none]
  rfl

theorem indentStart_succ {low : Nat} (after : low ≤ position) (read : bytes[position]? = some byte) :
    indentStart bytes low (position + 1) =
      if isIndent byte then indentStart bytes low position else position + 1 := by
  obtain ⟨inside,_⟩ := List.getElem?_eq_some_iff.mp read
  have size : low ≤ (bytes.take position).length := by simp; omega
  rw [indentStart,List.take_add_one,read,Option.toList_some,List.drop_append_of_le_length size,
    List.reverse_concat,List.takeWhile_cons]
  split
  · rw [indentStart,List.length_cons,Nat.add_sub_add_right]
  · rfl

theorem indentStart?_eq (low : outer.start ≤ position) (high : position ≤ outer.stop)
    (bounded : outer.stop ≤ bytes.length) :
    indentStart? bytes outer position = some (indentStart bytes outer.start position) := by
  induction position with
  | zero => rw [indentStart?,indentStart_of_le (Nat.zero_le _)]
  | succ position ih =>
    rw [indentStart?]
    split
    · next after =>
      have after := Nat.le_of_lt_succ after
      obtain ⟨byte,read,checked⟩ := exists_byteWithin? after high bounded
      rw [checked,indentStart_succ after read,Option.bind_some,ih after (Nat.le_of_succ_le high)]
      split <;> rfl
    · next start => rw [indentStart_of_le (Nat.le_of_not_lt start)]

theorem tailStop_of_le {high : Nat} (after : high ≤ position) : tailStop bytes position high = position := by
  have none : (bytes.take high).drop position = [] :=
    List.drop_eq_nil_of_le (Nat.le_trans (List.length_take_le _ _) after)
  rw [tailStop,none]
  rfl

theorem tailStop_step {high : Nat} (before : position < high) (read : bytes[position]? = some byte) :
    tailStop bytes position high =
      if isLineTail byte then tailStop bytes (position + 1) high else position := by
  obtain ⟨inside,value⟩ := List.getElem?_eq_some_iff.mp read
  have size : position < (bytes.take high).length := by simp; omega
  rw [tailStop,List.drop_eq_getElem_cons size,List.getElem_take,value,List.takeWhile_cons]
  split
  · rw [tailStop,List.length_cons]
    omega
  · rfl

theorem tailStop?_eq (low : outer.start ≤ position) (bounded : outer.stop ≤ bytes.length) :
    tailStop? bytes outer position = some (tailStop bytes position outer.stop) := by
  induction position using tailStop?.induct outer with
  | case1 position before ih =>
    obtain ⟨byte,read,checked⟩ := exists_byteWithin? low before bounded
    rw [tailStop?,if_pos before,checked,tailStop_step before read,Option.bind_some,
      ih (Nat.le_succ_of_le low)]
    split <;> rfl
  | case2 position after =>
    rw [tailStop?,if_neg after,tailStop_of_le (Nat.le_of_not_lt after)]

theorem startsLine?_eq {start : Nat} (low : outer.start ≤ start) (high : start ≤ outer.stop)
    (bounded : outer.stop ≤ bytes.length) : startsLine? bytes outer start =
      some (decide (start = outer.start ∨ bytes[start - 1]? = some 0x0A)) := by
  rw [startsLine?]
  split
  · next same => simp [same]
  · next later =>
    obtain ⟨before,rfl⟩ : ∃ before, start = before + 1 := ⟨start - 1,by omega⟩
    have low : outer.start ≤ before := by omega
    obtain ⟨byte,read,checked⟩ := exists_byteWithin? low high bounded
    rw [byteBefore?,checked,Nat.add_sub_cancel,read]
    simp [later,BEq.beq]

theorem endsLine?_eq {stop : Nat} (low : outer.start ≤ stop) (bounded : outer.stop ≤ bytes.length) :
    endsLine? bytes outer stop = some (decide (stop < outer.stop ∧ bytes[stop]? = some 0x0A)) := by
  rw [endsLine?]
  split
  · next before =>
    obtain ⟨byte,read,checked⟩ := exists_byteWithin? low before bounded
    rw [checked,read]
    simp [before,BEq.beq]
  · next after => simp [after]

/-- Widening by checked reads succeeds, with the span that widening gives. -/
theorem widen?_eq (low : outer.start ≤ comment.start) (forward : comment.start ≤ comment.stop)
    (high : comment.stop ≤ outer.stop) (bounded : outer.stop ≤ bytes.length) :
    widen? bytes outer comment = some (widen bytes outer comment) := by
  have startLow := indentStart_le bytes outer.start comment.start
  have owned := startsLine?_eq (le_indentStart bytes low)
    (Nat.le_trans startLow (Nat.le_trans forward high)) bounded
  have lowStop := le_tailStop bytes comment.stop outer.stop
  have ended := endsLine?_eq (Nat.le_trans (Nat.le_trans low forward) lowStop) bounded
  rw [widen?,indentStart?_eq low (Nat.le_trans forward high) bounded,
    tailStop?_eq (Nat.le_trans low forward) bounded]
  simp only [Option.bind_eq_bind,Option.bind_some,owned,ended,Option.map_some,decide_eq_true_eq]
  rw [widen]
  split
  · split <;> rfl
  · rfl

-- Cutting

/-- One cut succeeds from a position in the node. It stays in the node, and what it leaves to be done keeps
the same in all. -/
theorem Cutting.exists_cut? {cutting : Cutting} (bounded : outer.stop ≤ bytes.length)
    (reached : outer.start ≤ cutting.position ∧ cutting.position ≤ outer.stop)
    (forward : span.start ≤ span.stop) (high : span.stop ≤ outer.stop) :
    ∃ next, cutting.cut? bytes span = some next ∧
      (outer.start ≤ next.position ∧ next.position ≤ outer.stop) ∧
      ∀ rest, next.kept ++ keepOutside bytes outer.stop next.position rest =
        cutting.kept ++ keepOutside bytes outer.stop cutting.position (span :: rest) := by
  obtain ⟨low,within⟩ := reached
  rw [cut?]
  split
  · next overlapping =>
    refine ⟨_,rfl,⟨Nat.le_trans low (Nat.le_max_left _ _),Nat.max_le.mpr ⟨within,high⟩⟩,fun rest => ?_⟩
    rw [keepOutside,if_pos overlapping]
  · next apart =>
    have ordered : cutting.position ≤ span.start ∧ span.start ≤ bytes.length := by omega
    rw [slice?,if_pos ordered]
    refine ⟨_,rfl,⟨by dsimp only; omega,high⟩,fun rest => ?_⟩
    rw [keepOutside,if_neg apart,List.append_assoc]

/-- A run of cuts succeeds, by induction on the spans from the single cut. -/
theorem Cutting.exists_cuts? (outer : Span) (cutting : Cutting) {spans : List Span}
    (bounded : outer.stop ≤ bytes.length)
    (each : ∀ span ∈ spans, span.start ≤ span.stop ∧ span.stop ≤ outer.stop)
    (reached : outer.start ≤ cutting.position ∧ cutting.position ≤ outer.stop) :
    ∃ final, spans.foldlM (cut? bytes) cutting = some final ∧
      (outer.start ≤ final.position ∧ final.position ≤ outer.stop) ∧
      final.kept ++ keepOutside bytes outer.stop final.position [] =
        cutting.kept ++ keepOutside bytes outer.stop cutting.position spans := by
  induction spans generalizing cutting with
  | nil => exact ⟨cutting,rfl,reached,rfl⟩
  | cons span spans ih =>
    obtain ⟨⟨forward,high⟩,later⟩ := List.forall_mem_cons.mp each
    obtain ⟨next,cut,within,same⟩ := exists_cut? bounded reached forward high
    obtain ⟨final,run,last,kept⟩ := ih next later within
    refine ⟨final,?_,last,kept.trans (same spans)⟩
    rw [List.foldlM_cons,cut]
    exact run

theorem mem_destutter' {α : Type} [DecidableEq α] {items : List α} {first item : α} :
    item ∈ items.destutter' (· ≠ ·) first ↔ item ∈ first :: items := by
  induction items generalizing first with
  | nil => rw [List.destutter'_nil]
  | cons next items ih =>
    rw [List.destutter'_cons]
    split
    · rw [List.mem_cons,ih,← List.mem_cons]
    · next same =>
      obtain rfl : first = next := not_not.mp same
      simp [ih]

theorem mem_destutter {α : Type} [DecidableEq α] {items : List α} {item : α} :
    item ∈ items.destutter (· ≠ ·) ↔ item ∈ items := by
  cases items with
  | nil => rfl
  | cons first items => rw [List.destutter_cons',mem_destutter']

/-- Cutting out a span once more keeps the same. -/
theorem keepOutside_destutter {stop : Nat} {spans : List Span}
    (order : spans.Pairwise fun a b => a.start ≤ b.start)
    (each : ∀ span ∈ spans, span.start ≤ span.stop ∧ span.stop ≤ stop) :
    keepOutside bytes stop position (spans.destutter (· ≠ ·)) = keepOutside bytes stop position spans := by
  rw [keepOutside_eq_select bytes stop position _ (order.sublist (List.destutter_sublist _ _))
      fun span member => each span (mem_destutter.mp member),
    keepOutside_eq_select bytes stop position _ order each]
  refine select_congr 0 fun i _ _ => ?_
  congr 2
  rw [Bool.eq_iff_iff,List.any_eq_true,List.any_eq_true]
  simp only [mem_destutter]

-- A node without its comments

theorem cuts_eq (bytes : List UInt8) (node : Node) : cuts bytes node =
    ((node.comments.filter (·.span.within node.span)).map fun comment =>
      widen bytes node.span comment.span).mergeSort Span.le := by
  rw [cuts,Node.comments,List.filter_filter]
  simp only [Bool.and_comm]

/-- What removing comments reads stays in range: each comment in a node is widened within the node, cutting
never leaves the node whatever it has done so far, and every check on the way to the outcome is passed. -/
structure StaysInRange (bytes : List UInt8) (node : Node) : Prop where
  widened : ∀ comment ∈ node.comments, comment.span.within node.span = true →
    ∃ cut, widen? bytes node.span comment.span = some cut ∧ node.start ≤ cut.start ∧
      cut.start ≤ comment.start ∧ comment.stop ≤ cut.stop ∧ cut.stop ≤ node.stop
  reached : ∀ done rest, (cuts bytes node).destutter (· ≠ ·) = done ++ rest →
    ∃ cutting, done.foldlM (Cutting.cut? bytes) ⟨node.start,[]⟩ = some cutting ∧
      node.start ≤ cutting.position ∧ cutting.position ≤ node.stop
  removed : withoutComments? bytes node = some (withoutComments bytes node)

theorem withoutComments_staysInRange (bytes : List UInt8) (node : Node) (forward : node.start ≤ node.stop)
    (bounded : node.stop ≤ bytes.length)
    (ordered : ∀ comment ∈ node.comments, comment.start ≤ comment.stop) : StaysInRange bytes node := by
  have inside (comment : Node) (member : comment ∈ node.comments)
      (within : comment.span.within node.span = true) :
      widen? bytes node.span comment.span = some (widen bytes node.span comment.span) ∧
        Widened bytes node.span comment.span (widen bytes node.span comment.span) := by
    obtain ⟨low,high⟩ := Bool.and_eq_true_iff.mp within
    have low := of_decide_eq_true low
    have high := of_decide_eq_true high
    have forward := ordered comment member
    exact ⟨widen?_eq low forward high bounded,widen_widened forward low high bounded⟩
  have each : ∀ cut ∈ cuts bytes node, cut.start ≤ cut.stop ∧ cut.stop ≤ node.stop := by
    intro cut listed
    obtain ⟨comment,member,within,rfl⟩ := mem_cuts_iff.mp listed
    obtain ⟨_,widened⟩ := inside comment member within
    exact ⟨Nat.le_trans widened.before (Nat.le_trans (ordered comment member) widened.after),widened.high⟩
  have start : node.start ≤ node.start ∧ node.start ≤ node.stop := ⟨Nat.le_refl _,forward⟩
  refine ⟨?_,?_,?_⟩
  · intro comment member within
    obtain ⟨checked,widened⟩ := inside comment member within
    exact ⟨_,checked,widened.low,widened.before,widened.after,widened.high⟩
  · intro done rest parted
    have listed : ∀ cut ∈ done, cut.start ≤ cut.stop ∧ cut.stop ≤ node.stop := by
      intro cut here
      apply each cut
      apply mem_destutter.mp
      rw [parted]
      exact List.mem_append_left rest here
    obtain ⟨cutting,run,reached,_⟩ :=
      Cutting.exists_cuts? node.span ⟨node.start,[]⟩ bounded listed start
    exact ⟨cutting,run,reached⟩
  · have spans : (node.comments.filter (·.span.within node.span)).mapM
        (fun comment => widen? bytes node.span comment.span) =
        some ((node.comments.filter (·.span.within node.span)).map fun comment =>
          widen bytes node.span comment.span) := by
      rw [mapM_eq_some_iff,List.map_map]
      apply List.map_congr_left
      intro comment listed
      obtain ⟨member,within⟩ := List.mem_filter.mp listed
      exact (inside comment member within).1
    obtain ⟨final,run,⟨_,high⟩,kept⟩ := Cutting.exists_cuts? node.span ⟨node.start,[]⟩ bounded
      (fun cut listed => each cut (mem_destutter.mp listed)) start
    have last : slice? bytes final.position node.stop =
        some (keepOutside bytes node.stop final.position []) := if_pos ⟨high,bounded⟩
    rw [withoutComments?,spans]
    simp only [Option.bind_eq_bind,Option.bind_some,← cuts_eq,run,last]
    rw [withoutComments,← keepOutside_destutter (cuts_ordered bytes node) each]
    exact congrArg some kept

def overlapping : List UInt8 := Utf8.encode " /*a/*b*/ y //c".toList

/-- Two comments that overlap, and comments at both ends of the node. -/
def overlappingTree : Node :=
  ⟨"program",true,1,15,[],[⟨"comment",true,1,9,[],[]⟩,⟨"comment",true,4,9,[],[]⟩,
    ⟨"identifier",true,10,11,[],[]⟩,⟨"comment",true,12,15,[],[]⟩]⟩

theorem overlapping_comments : overlappingTree.comments =
    [⟨"comment",true,1,9,[],[]⟩,⟨"comment",true,4,9,[],[]⟩,⟨"comment",true,12,15,[],[]⟩] := by
  simp [Node.comments,Node.nodes_eq,overlappingTree,isComment]

theorem overlapping_cuts : cuts overlapping overlappingTree = [⟨1,9⟩,⟨4,9⟩,⟨11,15⟩] := by
  rw [cuts_eq,overlapping_comments]
  exact List.mergeSort_of_pairwise (by decide)

theorem withoutComments_staysInRange_overlapping :
    (overlappingTree.start ≤ overlappingTree.stop ∧ overlappingTree.stop ≤ overlapping.length ∧
      ∀ comment ∈ overlappingTree.comments, comment.start ≤ comment.stop) ∧
    StaysInRange overlapping overlappingTree ∧
    withoutComments? overlapping overlappingTree = some (Utf8.encode " y".toList) := by
  have ordered : ∀ comment ∈ overlappingTree.comments, comment.start ≤ comment.stop := by
    rw [overlapping_comments]
    decide
  have bounded : overlappingTree.stop ≤ overlapping.length := by decide
  have stays := withoutComments_staysInRange overlapping overlappingTree (by decide) bounded ordered
  refine ⟨⟨by decide,bounded,ordered⟩,stays,?_⟩
  rw [stays.removed,withoutComments,overlapping_cuts]
  decide

end SourceAtlas.Syntax
