import SourceAtlas.Proofs.CommentMargin

/-! Comments that stand alone go with their lines. The lines of a node are its text cut after each line
feed; a comment with nothing beside it but blanks is cut together with exactly the lines it touches. -/
namespace SourceAtlas.Syntax

/-- A line of a node: where it starts in the file, and its bytes with the line feed that ends it. -/
structure Line where
  start : Nat
  bytes : List UInt8
  deriving DecidableEq, Repr

def Line.stop (line : Line) : Nat := line.start + line.bytes.length

/-- A comment touches a line if it begins before the end of the line and does not end before its start. -/
def Line.touches (line : Line) (comment : Node) : Bool :=
  comment.start < line.stop && line.start ≤ comment.stop

/-- A byte text cut after each line feed. -/
def textLines : List UInt8 → List (List UInt8)
  | [] => []
  | byte :: rest =>
    if byte == 0x0A then [byte] :: textLines rest
    else match textLines rest with
      | [] => [[byte]]
      | line :: later => (byte :: line) :: later

/-- Lines one after the other, the first one at `start`. -/
def placeLines (start : Nat) : List (List UInt8) → List Line
  | [] => []
  | bytes :: rest => ⟨start,bytes⟩ :: placeLines (start + bytes.length) rest

def SourceFile.lines (file : SourceFile) (node : Node) : List Line :=
  placeLines node.start (textLines (file.slice node.start node.stop))

/-- A comment without code beside it: from the start of its first line to the line feed of its last one,
which the node has too, there are only blanks around it. -/
structure StandsAlone (bytes : List UInt8) (outer comment : Span) : Prop where
  before : ∃ start ≤ comment.start, StartsLine bytes outer start ∧
    ∀ i, start ≤ i → i < comment.start → IndentAt bytes i
  after : ∃ stop, comment.stop ≤ stop ∧ stop < outer.stop ∧ LineFeedAt bytes stop ∧
    ∀ i, comment.stop ≤ i → i < stop → LineTailAt bytes i

-- Lines

structure WholeLine (line : List UInt8) : Prop where
  nonempty : line ≠ []
  inner : 0x0A ∉ line.dropLast

theorem flatten_textLines (text : List UInt8) : (textLines text).flatten = text := by
  induction text with
  | nil => rfl
  | cons byte rest ih =>
    unfold textLines
    split
    · rw [List.flatten_cons,ih]
      rfl
    · split
      · next none =>
        rw [none] at ih
        rw [← ih]
        rfl
      · next line later shape =>
        rw [shape,List.flatten_cons] at ih
        rw [List.flatten_cons,List.cons_append,ih]

theorem wholeLine_of_mem_textLines {text line : List UInt8} (member : line ∈ textLines text) :
    WholeLine line := by
  induction text generalizing line with
  | nil => simp [textLines] at member
  | cons byte rest ih =>
    unfold textLines at member
    split at member
    · rcases List.mem_cons.mp member with rfl | later
      · exact ⟨by simp,by simp⟩
      · exact ih later
    · next other =>
      split at member
      · obtain rfl := List.mem_singleton.mp member
        exact ⟨by simp,by simp⟩
      · next first later shape =>
        rw [shape] at ih
        rcases List.mem_cons.mp member with rfl | inside
        · obtain ⟨nonempty,inner⟩ := ih List.mem_cons_self
          refine ⟨by simp,?_⟩
          rw [List.dropLast_cons_of_ne_nil nonempty,List.mem_cons,not_or]
          exact ⟨fun same => other (by simp [same]),inner⟩
        · exact ih (List.mem_cons_of_mem _ inside)

/-- Each line with a line after it ends in a line feed. -/
theorem pairwise_textLines (text : List UInt8) :
    (textLines text).Pairwise fun line _ => line.getLast? = some 0x0A := by
  induction text with
  | nil => exact .nil
  | cons byte rest ih =>
    unfold textLines
    split
    · next lineFeed =>
      refine List.pairwise_cons.mpr ⟨fun _ _ => ?_,ih⟩
      simpa using lineFeed
    · split
      · exact List.pairwise_singleton _ _
      · next line later shape =>
        rw [shape] at ih
        obtain ⟨ends,rest⟩ := List.pairwise_cons.mp ih
        refine List.pairwise_cons.mpr ⟨fun other inside => ?_,rest⟩
        rw [List.getLast?_cons,ends other inside]
        rfl

theorem map_bytes_placeLines (start : Nat) (lines : List (List UInt8)) :
    (placeLines start lines).map Line.bytes = lines := by
  induction lines generalizing start with
  | nil => rfl
  | cons line rest ih => rw [placeLines,List.map_cons,ih]

theorem mem_placeLines {start : Nat} {lines : List (List UInt8)} {line : Line}
    (member : line ∈ placeLines start lines) : ∃ before after, lines = before ++ line.bytes :: after ∧
      line.start = start + before.flatten.length := by
  induction lines generalizing start with
  | nil => simp [placeLines] at member
  | cons first rest ih =>
    rcases List.mem_cons.mp member with rfl | later
    · exact ⟨[],rest,rfl,rfl⟩
    · obtain ⟨before,after,rfl,place⟩ := ih later
      refine ⟨first :: before,after,rfl,?_⟩
      rw [place,List.flatten_cons,List.length_append]
      omega

/-- A test that treats the bytes of each line alike selects whole lines. -/
theorem select_placeLines {test : Nat → Bool} {keep : Line → Bool} (start : Nat)
    (lines : List (List UInt8)) (whole : ∀ line ∈ placeLines start lines,
      ∀ i, line.start ≤ i → i < line.stop → test i = keep line) :
    select test lines.flatten start = ((placeLines start lines).filter keep).flatMap Line.bytes := by
  induction lines generalizing start with
  | nil => rfl
  | cons line rest ih =>
    have here := whole ⟨start,line⟩ List.mem_cons_self
    have later := ih (start + line.length) fun other inside => whole other (List.mem_cons_of_mem _ inside)
    rw [List.flatten_cons,select_append,later,placeLines,List.filter_cons]
    cases kept : keep ⟨start,line⟩ with
    | true =>
      rw [select_all start fun i low high => (here i low high).trans kept]
      rfl
    | false =>
      rw [select_none start fun i low high => (here i low high).trans kept]
      rfl

theorem decodeLossy_flatMap {lines : List Line}
    (ends : lines.Pairwise fun line _ => line.bytes.getLast? = some 0x0A) :
    Utf8.decodeLossy (lines.flatMap Line.bytes) =
      lines.flatMap fun line => Utf8.decodeLossy line.bytes := by
  induction lines with
  | nil => rfl
  | cons line rest ih =>
    obtain ⟨first,later⟩ := List.pairwise_cons.mp ends
    rw [List.flatMap_cons,List.flatMap_cons,← ih later]
    cases rest with
    | nil => simp [Utf8.decodeLossy,Utf8.pieces,Utf8.piecesFrom]
    | cons next rest =>
      obtain ⟨front,shape⟩ := List.getLast?_eq_some_iff.mp (first next List.mem_cons_self)
      rw [shape,List.append_assoc,List.singleton_append,Utf8.decodeLossy_ascii front _ (by decide),
        Utf8.decodeLossy_ascii front [] (by decide),List.append_assoc]
      rfl

/-- Where a line of a node stands: from the start of the node or a line feed up to its end or the next
line feed. -/
structure LineOf (bytes : List UInt8) (node : Node) (line : Line) : Prop where
  nonempty : line.start < line.stop
  high : line.stop ≤ node.stop
  begins : StartsLine bytes node.span line.start
  ends : line.stop = node.stop ∨ LineFeedAt bytes (line.stop - 1)
  inner : ∀ i, line.start ≤ i → i + 1 < line.stop → ¬LineFeedAt bytes i

theorem lineOf_of_mem_lines {file : SourceFile} {node : Node} {line : Line}
    (forward : node.start ≤ node.stop) (bounded : node.stop ≤ file.bytes.length)
    (member : line ∈ file.lines node) : LineOf file.bytes node line := by
  obtain ⟨before,after,shape,place⟩ := mem_placeLines member
  have ordered := pairwise_textLines (file.slice node.start node.stop)
  have whole : WholeLine line.bytes :=
    wholeLine_of_mem_textLines (by rw [shape]; exact List.mem_append_right before List.mem_cons_self)
  have text := flatten_textLines (file.slice node.start node.stop)
  rw [shape] at ordered text
  rw [List.flatten_append,List.flatten_cons] at text
  have size : before.flatten.length + (line.bytes.length + after.flatten.length) =
      node.stop - node.start := by
    have := congrArg List.length text
    simp only [List.length_append,SourceFile.slice,List.length_take,List.length_drop] at this
    omega
  have reads (k : Nat) (inside : k < node.stop - node.start) :
      file.bytes[node.start + k]? = (before.flatten ++ (line.bytes ++ after.flatten))[k]? := by
    rw [text,SourceFile.slice,List.getElem?_take_of_lt inside,List.getElem?_drop]
  have read (k : Nat) (inside : k < line.bytes.length) :
      file.bytes[line.start + k]? = line.bytes[k]? := by
    rw [place,Nat.add_assoc,reads _ (by omega),List.getElem?_append_right (Nat.le_add_right _ _),
      Nat.add_sub_cancel_left,List.getElem?_append_left inside]
  have nonempty := List.length_pos_of_ne_nil whole.nonempty
  have begun : before = [] ∨ ∃ earlier, before.flatten = earlier ++ [0x0A] := by
    rcases List.eq_nil_or_concat before with rfl | ⟨front,last,rfl⟩
    · exact .inl rfl
    · rw [List.concat_eq_append] at ordered ⊢
      have ended := (List.pairwise_append.mp ordered).2.2 last (by simp) line.bytes List.mem_cons_self
      obtain ⟨init,rfl⟩ := List.getLast?_eq_some_iff.mp ended
      exact .inr ⟨front.flatten ++ init,by simp⟩
  refine ⟨Nat.lt_add_of_pos_right nonempty,?_,?_,?_,?_⟩
  · rw [Line.stop,place]
    omega
  · rcases begun with rfl | ⟨earlier,edge⟩
    · exact .inl place
    · rw [edge,List.length_append,List.length_singleton,← Nat.add_assoc] at place
      rw [edge,List.append_assoc] at reads
      refine .inr ⟨show node.start < line.start by omega,?_⟩
      rw [LineFeedAt,place,Nat.add_sub_cancel,reads _ (by rw [edge] at size; simp at size; omega),
        List.getElem?_append_right (Nat.le_refl _),Nat.sub_self]
      rfl
  · rcases after with _ | ⟨next,after⟩
    · left
      rw [Line.stop,place]
      simp only [List.flatten_nil,List.length_nil] at size
      omega
    · right
      have ended := (List.pairwise_cons.mp (List.pairwise_append.mp ordered).2.1).1 next (by simp)
      rw [List.getLast?_eq_getElem?] at ended
      rw [LineFeedAt,Line.stop,Nat.add_sub_assoc nonempty,read _ (by omega),ended]
  · intro i above below lineFeed
    obtain ⟨k,rfl⟩ := Nat.exists_eq_add_of_le above
    rw [Line.stop] at below
    rw [LineFeedAt,read k (by omega)] at lineFeed
    apply whole.inner
    refine List.mem_of_getElem? (i := k) ?_
    rw [List.getElem?_dropLast,if_pos (by omega),lineFeed]

-- Cuts

theorem Line.touches_iff {line : Line} {comment : Node} :
    line.touches comment = true ↔ comment.start < line.stop ∧ line.start ≤ comment.stop := by
  simp only [Line.touches,Bool.and_eq_true,decide_eq_true_eq]

/-- For a comment of one byte at least that does not end in a line feed, to touch a line is to have a
byte in it. -/
theorem LineOf.touches_iff_shares {bytes : List UInt8} {node comment : Node} {line : Line}
    (lineOf : LineOf bytes node line) (nonempty : comment.start < comment.stop)
    (within : node.start ≤ comment.start) (ended : ¬LineFeedAt bytes (comment.stop - 1)) :
    line.touches comment = true ↔ ∃ i, comment.span.covers i = true ∧ line.start ≤ i ∧ i < line.stop := by
  rw [Line.touches_iff]
  constructor
  · rintro ⟨before,after⟩
    have apart : line.start ≠ comment.stop := by
      intro same
      rcases lineOf.begins with start | ⟨_,lineFeed⟩
      · have : line.start = node.start := start
        omega
      · exact ended (same ▸ lineFeed)
    have later : line.start < comment.stop := Nat.lt_of_le_of_ne after apart
    exact ⟨max comment.start line.start,
      covers_iff.mpr ⟨Nat.le_max_left _ _,Nat.max_lt.mpr ⟨nonempty,later⟩⟩,
      Nat.le_max_right _ _,Nat.max_lt.mpr ⟨before,lineOf.nonempty⟩⟩
  · rintro ⟨i,covered,above,below⟩
    obtain ⟨low,high⟩ := covers_iff.mp covered
    exact ⟨Nat.lt_of_le_of_lt low below,Nat.le_of_lt (Nat.lt_of_le_of_lt above high)⟩

/-- A comment that stands alone goes with its indentation and the line feed after it. -/
theorem StandsAlone.widen_eq {bytes : List UInt8} {outer comment : Span}
    (alone : StandsAlone bytes outer comment) (low : outer.start ≤ comment.start)
    (bounded : comment.start ≤ bytes.length) : ∃ start stop,
      widen bytes outer comment = ⟨start,stop + 1⟩ ∧
      (start ≤ comment.start ∧ StartsLine bytes outer start ∧
        ∀ i, start ≤ i → i < comment.start → IndentAt bytes i) ∧
      comment.stop ≤ stop ∧ stop < outer.stop ∧ LineFeedAt bytes stop ∧
        ∀ i, comment.stop ≤ i → i < stop → LineTailAt bytes i := by
  obtain ⟨start,before,starts,indents⟩ := alone.before
  obtain ⟨stop,after,inside,lineFeed,tails⟩ := alone.after
  refine ⟨start,stop,?_,⟨before,starts,indents⟩,after,inside,lineFeed,tails⟩
  have reached := indentStart_eq before bounded starts indents
  have ended := tailStop_eq after inside tails lineFeed
  have cases := widen_cases bytes low
  simp only [reached,ended] at cases
  rcases cases with ⟨_,_,_,widened⟩ | ⟨_,going,_⟩ | ⟨code,_⟩
  · exact widened
  · exact absurd ⟨inside,lineFeed⟩ going
  · exact absurd starts code

/-- The cut of a comment that stands alone consists of the lines that the comment touches. -/
theorem LineOf.covers_widen {bytes : List UInt8} {node comment : Node} {line : Line}
    (lineOf : LineOf bytes node line) (alone : StandsAlone bytes node.span comment.span)
    (low : node.start ≤ comment.start) (forward : comment.start ≤ comment.stop)
    (bounded : comment.start ≤ bytes.length) {i : Nat} (above : line.start ≤ i) (below : i < line.stop) :
    (widen bytes node.span comment.span).covers i = line.touches comment := by
  obtain ⟨start,stop,widened,⟨before,starts,indents⟩,after,inside,lineFeed,tails⟩ :=
    alone.widen_eq low bounded
  have before : start ≤ comment.start := before
  have after : comment.stop ≤ stop := after
  have inside : stop < node.stop := inside
  rw [widened,Bool.eq_iff_iff,covers_iff,Line.touches_iff]
  dsimp only
  constructor
  · rintro ⟨low,high⟩
    constructor
    · by_contra ended
      rcases lineOf.ends with last | lineFeed
      · omega
      · exact lineFeed.not_indent (indents _ (by omega) (show line.stop - 1 < comment.start by omega))
    · by_contra later
      rcases lineOf.begins with first | ⟨_,lineFeed⟩
      · have : line.start = node.start := first
        omega
      · exact lineFeed.not_lineTail (tails _ (show comment.stop ≤ line.start - 1 by omega) (by omega))
  · rintro ⟨early,late⟩
    constructor
    · by_contra later
      rcases starts with first | ⟨inner,lineFeed⟩
      · have : start = node.start := first
        have : node.start ≤ line.start := lineOf.begins.le
        omega
      · exact lineOf.inner (start - 1) (by omega) (by omega) lineFeed
    · by_contra ended
      exact lineOf.inner stop (by omega) (by omega) lineFeed

theorem withoutComments_lines {file : SourceFile} {node : Node} (nested : node.Nested)
    (bounded : node.stop ≤ file.bytes.length)
    (alone : ∀ comment ∈ node.comments, StandsAlone file.bytes node.span comment.span) :
    withoutComments file.bytes node =
      ((file.lines node).filter fun line => !node.comments.any line.touches).flatMap Line.bytes := by
  have forward := nested.forward node node.mem_nodes_self
  have kept : ∀ line ∈ file.lines node, ∀ i, line.start ≤ i → i < line.stop →
      isKept file.bytes node i = !node.comments.any line.touches := by
    intro line member i above below
    rw [isKept,Bool.not_inj_iff,Bool.eq_iff_iff,List.any_eq_true,List.any_eq_true]
    have lineOf := lineOf_of_mem_lines forward bounded member
    have same (comment : Node) (inside : comment ∈ node.comments) :
        (widen file.bytes node.span comment.span).covers i = line.touches comment := by
      obtain ⟨low,high⟩ := nested.within (mem_comments.mp inside).1
      have ordered := nested.forward comment (mem_comments.mp inside).1
      exact lineOf.covers_widen (alone comment inside) low ordered (by omega) above below
    constructor
    · rintro ⟨cut,member,covered⟩
      obtain ⟨comment,inside,rfl⟩ := (mem_cuts nested).mp member
      exact ⟨comment,inside,(same comment inside).symm.trans covered⟩
    · rintro ⟨comment,inside,touched⟩
      exact ⟨_,(mem_cuts nested).mpr ⟨comment,inside,rfl⟩,(same comment inside).trans touched⟩
  calc withoutComments file.bytes node
      = select (fun i => node.span.covers i && isKept file.bytes node i) file.bytes :=
        withoutComments_eq_select nested bounded
    _ = select (isKept file.bytes node) (file.slice node.start node.stop) node.start :=
        select_between forward bounded _
    _ = select (isKept file.bytes node) (textLines (file.slice node.start node.stop)).flatten
          node.start := by rw [flatten_textLines]
    _ = _ := select_placeLines node.start _ kept

/-- Printing without comments that stand alone leaves out the lines they touch and nothing else. -/
theorem print_removed_lines (file : SourceFile) (place : Place) (parsed : file.Parsed)
    (inTree : place.node ∈ file.tree.nodes)
    (alone : ∀ comment ∈ place.node.comments, StandsAlone file.bytes place.node.span comment.span) :
    let lines := file.lines place.node
    lines.flatMap Line.bytes = file.slice place.node.start place.node.stop ∧
    (∀ characters, Utf8.decode? (file.slice place.node.start place.node.stop) = some characters →
      characters = lines.flatMap fun line => Utf8.decodeLossy line.bytes) ∧
    Reader.syntactic.print .removed file place = .ok (String.ofList (Text.trimEnd
      ((lines.filter fun line => !place.node.comments.any line.touches).flatMap fun line =>
        Utf8.decodeLossy line.bytes))) := by
  have nested := parsed.nested.of_mem inTree
  have bounded : place.node.stop ≤ file.bytes.length :=
    Nat.le_trans (parsed.nested.within inTree).2 parsed.bounded
  intro lines
  have ends : lines.Pairwise fun line _ => line.bytes.getLast? = some 0x0A := by
    have texts := pairwise_textLines (file.slice place.node.start place.node.stop)
    rw [← map_bytes_placeLines place.node.start (textLines _)] at texts
    exact List.pairwise_map.mp texts
  have whole : lines.flatMap Line.bytes = file.slice place.node.start place.node.stop := by
    rw [List.flatMap_def,show lines.map Line.bytes = _ from map_bytes_placeLines _ _,flatten_textLines]
  refine ⟨whole,fun characters decoded => ?_,?_⟩
  · rw [← decodeLossy_flatMap ends,whole,Utf8.decodeLossy_of_decode? decoded]
  · change Except.ok (file.textWithoutComments place.node) = _
    rw [SourceFile.textWithoutComments,withoutComments_lines nested bounded alone,
      decodeLossy_flatMap (ends.filter _)]

def margins : List Char := "/* a\n*/\r\nlet x\r\n\t// y\nb".toList

def marginsTree : Node :=
  ⟨"program",true,0,23,[],[⟨"comment",true,0,7,[],[]⟩,⟨"lexical_declaration",true,9,14,[],[]⟩,
    ⟨"comment",true,17,21,[],[]⟩,⟨"expression_statement",true,22,23,[],[]⟩]⟩

def marginsFile : SourceFile := ⟨⟨"a.ts"⟩,Utf8.encode margins,marginsTree⟩

theorem margins_comments : marginsTree.comments =
    [⟨"comment",true,0,7,[],[]⟩,⟨"comment",true,17,21,[],[]⟩] := by
  simp [Node.comments,Node.nodes_eq,marginsTree,isComment]

theorem print_removed_lines_margins : marginsFile.Parsed ∧ marginsTree ∈ marginsFile.tree.nodes ∧
    (∀ comment ∈ marginsTree.comments, StandsAlone marginsFile.bytes marginsTree.span comment.span) ∧
    Reader.syntactic.print .removed marginsFile (.root marginsTree) = .ok "let x\r\nb" := by
  have parsed : marginsFile.Parsed := by
    refine ⟨⟨?_,?_⟩,by decide⟩
    · simp [marginsFile,marginsTree,Node.nodes_eq]
    · simp [marginsFile,marginsTree,Node.nodes_eq]
  have member : marginsTree ∈ marginsFile.tree.nodes := marginsTree.mem_nodes_self
  have alone : ∀ comment ∈ marginsTree.comments,
      StandsAlone marginsFile.bytes marginsTree.span comment.span := by
    rw [margins_comments]
    refine List.forall_mem_cons.mpr ⟨⟨⟨0,by decide,.inl rfl,?_⟩,8,by decide,by decide,rfl,?_⟩,
      List.forall_mem_singleton.mpr ⟨⟨16,by decide,.inr ⟨by decide,rfl⟩,?_⟩,21,by decide,by decide,rfl,?_⟩⟩
    · intro i _ below
      exact absurd below (Nat.not_lt_zero i)
    · intro i above below
      obtain rfl : i = 7 := Nat.le_antisymm (Nat.le_of_lt_succ below) above
      exact ⟨0x0D,rfl,rfl⟩
    · intro i above below
      obtain rfl : i = 16 := Nat.le_antisymm (Nat.le_of_lt_succ below) above
      exact ⟨0x09,rfl,rfl⟩
    · intro i above below
      exact absurd (Nat.lt_of_le_of_lt above below) (Nat.lt_irrefl 21)
  obtain ⟨_,_,printed⟩ := print_removed_lines marginsFile (.root marginsTree) parsed member alone
  refine ⟨parsed,member,alone,printed.trans ?_⟩
  simp only [Place.root,margins_comments]
  decide

end SourceAtlas.Syntax
