import SourceAtlas.Proofs.CommentRemoval

/-! Where the margins of a comment end. The indentation reaches back to the first byte that is no space
or tab, the tail forward to the first byte that does not end a line; the cut follows from the two. -/
namespace SourceAtlas.Syntax

def IndentAt (bytes : List UInt8) (position : Nat) : Prop :=
  ∃ byte, bytes[position]? = some byte ∧ isIndent byte = true

def LineTailAt (bytes : List UInt8) (position : Nat) : Prop :=
  ∃ byte, bytes[position]? = some byte ∧ isLineTail byte = true

def LineFeedAt (bytes : List UInt8) (position : Nat) : Prop := bytes[position]? = some 0x0A

/-- A line of the node starts at a position: the node does, or a line feed stands before it. -/
def StartsLine (bytes : List UInt8) (outer : Span) (position : Nat) : Prop :=
  position = outer.start ∨ outer.start < position ∧ LineFeedAt bytes (position - 1)

theorem StartsLine.le {bytes : List UInt8} {outer : Span} {position : Nat}
    (starts : StartsLine bytes outer position) : outer.start ≤ position := by
  rcases starts with rfl | ⟨later,_⟩
  · exact Nat.le_refl _
  · exact Nat.le_of_lt later

theorem covers_iff {span : Span} {i : Nat} :
    span.covers i = true ↔ span.start ≤ i ∧ i < span.stop := by
  simp only [Span.covers,Bool.and_eq_true,decide_eq_true_eq]

theorem LineFeedAt.not_lineTail {bytes : List UInt8} {i : Nat} (lineFeed : LineFeedAt bytes i) :
    ¬LineTailAt bytes i := by
  rintro ⟨byte,read,tail⟩
  cases Option.some.inj (lineFeed.symm.trans read)
  exact absurd tail (by decide)

theorem IndentAt.lineTail {bytes : List UInt8} {i : Nat} (indent : IndentAt bytes i) :
    LineTailAt bytes i := by
  obtain ⟨byte,read,indent⟩ := indent
  exact ⟨byte,read,by simp [isLineTail,indent]⟩

theorem LineFeedAt.not_indent {bytes : List UInt8} {i : Nat} (lineFeed : LineFeedAt bytes i) :
    ¬IndentAt bytes i := fun indent => lineFeed.not_lineTail indent.lineTail

private theorem not_test_of_length_takeWhile {α : Type} {test : α → Bool} {items : List α} {item : α}
    (read : items[(items.takeWhile test).length]? = some item) : test item = false := by
  have stopped := List.head?_dropWhile_not test items
  have same : (items.takeWhile test ++ items.dropWhile test)[(items.takeWhile test).length]? =
      (items.dropWhile test).head? := by
    rw [List.getElem?_append_right (Nat.le_refl _),Nat.sub_self,List.head?_eq_getElem?]
  rw [List.takeWhile_append_dropWhile,read] at same
  rwa [← same] at stopped

/-- No indentation is left out: it reaches back as far as spaces and tabs do. -/
theorem indentStart_le_of_indent {bytes : List UInt8} {low start position : Nat} (after : low ≤ start)
    (before : start ≤ position) (bounded : position ≤ bytes.length)
    (indents : ∀ i, start ≤ i → i < position → IndentAt bytes i) :
    indentStart bytes low position ≤ start := by
  by_contra later
  obtain ⟨n,size⟩ : ∃ n, (((bytes.take position).drop low).reverse.takeWhile isIndent).length = n := ⟨_,rfl⟩
  have reached : indentStart bytes low position = position - n := by rw [indentStart,size]
  have length : ((bytes.take position).drop low).length = position - low := by simp; omega
  obtain ⟨byte,read,indent⟩ := indents (position - n - 1) (by omega) (by omega)
  have next : ((bytes.take position).drop low).reverse[n]? = some byte := by
    rw [List.getElem?_reverse (by omega),length,List.getElem?_drop,List.getElem?_take_of_lt (by omega),← read]
    congr 1
    omega
  have stopped := not_test_of_length_takeWhile (size ▸ next)
  simp [indent] at stopped

theorem indentStart_eq {bytes : List UInt8} {outer : Span} {start position : Nat}
    (before : start ≤ position) (bounded : position ≤ bytes.length)
    (starts : StartsLine bytes outer start)
    (indents : ∀ i, start ≤ i → i < position → IndentAt bytes i) :
    indentStart bytes outer.start position = start := by
  have after := starts.le
  apply Nat.le_antisymm (indentStart_le_of_indent after before bounded indents)
  by_contra below
  rcases starts with rfl | ⟨later,lineFeed⟩
  · exact below (le_indentStart bytes before)
  · exact lineFeed.not_indent
      (indent_of_indentStart_le (Nat.le_trans after before) bounded (by omega) (by omega))

theorem tailStop_eq {bytes : List UInt8} {position stop high : Nat} (after : position ≤ stop)
    (below : stop < high) (tails : ∀ i, position ≤ i → i < stop → LineTailAt bytes i)
    (lineFeed : LineFeedAt bytes stop) : tailStop bytes position high = stop := by
  obtain ⟨n,size⟩ : ∃ n, (((bytes.take high).drop position).takeWhile isLineTail).length = n := ⟨_,rfl⟩
  have reached : tailStop bytes position high = position + n := by rw [tailStop,size]
  rcases Nat.lt_trichotomy (tailStop bytes position high) stop with short | same | long
  · obtain ⟨byte,read,tail⟩ := tails (position + n) (by omega) (by omega)
    have next : ((bytes.take high).drop position)[n]? = some byte := by
      rw [List.getElem?_drop,List.getElem?_take_of_lt (by omega),read]
    have stopped := not_test_of_length_takeWhile (size ▸ next)
    simp [tail] at stopped
  · exact same
  · exact absurd (lineTail_of_lt_tailStop after long) lineFeed.not_lineTail

/-- What widening makes of a comment: the whole line at a line start with nothing after the comment, the
comment at a line start with code after it, the comment and the blanks before it after code. -/
theorem widen_cases (bytes : List UInt8) {outer comment : Span} (low : outer.start ≤ comment.start) :
    let start := indentStart bytes outer.start comment.start
    let stop := tailStop bytes comment.stop outer.stop
    (StartsLine bytes outer start ∧ stop < outer.stop ∧ LineFeedAt bytes stop ∧
      widen bytes outer comment = ⟨start,stop + 1⟩) ∨
    (StartsLine bytes outer start ∧ ¬(stop < outer.stop ∧ LineFeedAt bytes stop) ∧
      widen bytes outer comment = comment) ∨
    (¬StartsLine bytes outer start ∧ widen bytes outer comment = ⟨start,comment.stop⟩) := by
  intro start stop
  have starts : start = outer.start ∨ bytes[start - 1]? = some 0x0A ↔ StartsLine bytes outer start := by
    refine or_congr_right' fun later => ⟨fun lineFeed => ⟨?_,lineFeed⟩,And.right⟩
    exact Nat.lt_of_le_of_ne (le_indentStart bytes low) (Ne.symm later)
  unfold widen
  dsimp only
  split
  · next owned =>
    split
    · next ended => exact .inl ⟨starts.mp owned,ended.1,ended.2,rfl⟩
    · next going => exact .inr (.inl ⟨starts.mp owned,going,rfl⟩)
  · next code => exact .inr (.inr ⟨fun owned => code (starts.mpr owned),rfl⟩)

end SourceAtlas.Syntax
