import SourceAtlas.Proofs.LenientReading

/-! The passages of any text: characters of code, string literals and comments, the last two also without an
end. When comments are removed, the other passages are kept as they are and do not run into each other. -/
namespace SourceAtlas.Json

variable {c : Char} {rest body literal comment : List Char}

-- Passages

/-- A string literal, and what follows it. Without a closing quote it extends to the end of the text, where
a backslash may be the last character. -/
inductive LiteralBefore : (literal rest : List Char) → Prop
  | closed {body : List Char} (inside : Body body) (rest : List Char) :
    LiteralBefore ('"' :: (body ++ ['"'])) rest
  | endless {body : List Char} (inside : Body body) : LiteralBefore ('"' :: body) []
  | escape {body : List Char} (inside : Body body) : LiteralBefore ('"' :: (body ++ ['\\'])) []

/-- A comment, and what follows it. A line comment has all up to the line break, a block comment all up to
the first place where it can end. -/
inductive CommentBefore : (comment rest : List Char) → Prop
  | line {comment rest : List Char} (oneLine : '\n' ∉ comment) (stops : ∀ c ∈ rest.head?, c = '\n') :
    CommentBefore ('/' :: '/' :: comment) rest
  | block {comment : List Char} (closed : ¬['*','/'] <:+: comment) (rest : List Char) :
    CommentBefore ('/' :: '*' :: (comment ++ ['*','/'])) rest
  | endless {comment : List Char} (endless : ¬['*','/'] <:+: comment) :
    CommentBefore ('/' :: '*' :: comment) []

inductive Passage
  | code (c : Char)
  | literal (text : List Char)
  | comment (text : List Char)

def Passage.text : Passage → List Char
  | .code c => [c]
  | .literal text => text
  | .comment text => text

def Passage.isComment : Passage → Bool
  | .comment _ => true
  | _ => false

/-- The passages of a text. A character of code is no quote and does not open a comment with the next one. -/
inductive Passages : List Char → List Passage → Prop
  | nil : Passages [] []
  | code {c : Char} {rest : List Char} {passages : List Passage} (noQuote : c ≠ '"')
    (noComment : c = '/' → ∀ d ∈ rest.head?, d ≠ '/' ∧ d ≠ '*') (later : Passages rest passages) :
    Passages (c :: rest) (.code c :: passages)
  | literal {literal rest : List Char} {passages : List Passage} (first : LiteralBefore literal rest)
    (later : Passages rest passages) : Passages (literal ++ rest) (.literal literal :: passages)
  | comment {comment rest : List Char} {passages : List Passage} (first : CommentBefore comment rest)
    (later : Passages rest passages) : Passages (comment ++ rest) (.comment comment :: passages)

/-- Characters that are no quotes, and whole string literals: a text that ends outside of literals. -/
inductive Outside : List Char → Prop
  | nil : Outside []
  | code {c : Char} {rest : List Char} (noQuote : c ≠ '"') (later : Outside rest) : Outside (c :: rest)
  | literal {body rest : List Char} (inside : Body body) (later : Outside rest) :
    Outside ('"' :: (body ++ '"' :: rest))

-- Where literals stop

theorem keepsStrings_dropComments : KeepsStrings (dropComments .plain) (dropComments .text) :=
  replaceComments_nil ▸ keepsStrings_replaceComments []

/-- What follows the inside of a string literal. -/
inductive AfterBody : List Char → Prop
  | nil : AfterBody []
  | escape : AfterBody ['\\']
  | quote (rest : List Char) : AfterBody ('"' :: rest)

theorem exists_stop (text : List Char) : ∃ body stop, text = body ++ stop ∧ Body body ∧ AfterBody stop := by
  induction length : text.length using Nat.strongRecOn generalizing text with
  | ind size ih =>
    have later (shorter : List Char) (less : shorter.length < text.length) := ih _ (length ▸ less) shorter rfl
    rcases keepsStrings_dropComments.inside_cases text with
      ⟨rfl,_⟩ | ⟨rfl,_⟩ | ⟨rest,rfl,_⟩ | ⟨c,rest,rfl,_⟩ | ⟨c,rest,noQuote,noEscape,rfl,_⟩
    · exact ⟨[],[],rfl,.nil,.nil⟩
    · exact ⟨[],['\\'],rfl,.nil,.escape⟩
    · exact ⟨[],'"' :: rest,rfl,.nil,.quote rest⟩
    · obtain ⟨body,stop,rfl,inside,stops⟩ := later rest (by simp only [List.length_cons]; omega)
      exact ⟨_,stop,rfl,.escaped c inside,stops⟩
    · obtain ⟨body,stop,rfl,inside,stops⟩ := later rest (by simp)
      exact ⟨_,stop,rfl,.plain noQuote noEscape inside,stops⟩

theorem AfterBody.eq_nil {stop stop' : List Char} (stops : AfterBody stop) (inside : Body body)
    (same : stop = body ++ stop') : body = [] := by
  cases inside with
  | nil => rfl
  | plain noQuote noEscape =>
    cases stops with
    | nil => simp at same
    | escape => exact absurd (List.cons.inj same).1.symm noEscape
    | quote => exact absurd (List.cons.inj same).1.symm noQuote
  | escaped => cases stops <;> simp at same

theorem Body.append_inj {other stop stop' : List Char} (inside : Body body) (inside' : Body other)
    (stops : AfterBody stop) (stops' : AfterBody stop') (same : body ++ stop = other ++ stop') :
    body = other ∧ stop = stop' := by
  induction inside generalizing other with
  | nil =>
    cases stops.eq_nil inside' same
    exact ⟨rfl,same⟩
  | plain noQuote noEscape more ih =>
    cases inside' with
    | nil => cases stops'.eq_nil (.plain noQuote noEscape more) same.symm
    | plain _ _ later =>
      obtain ⟨rfl,left⟩ := List.cons.inj same
      obtain ⟨rfl,rfl⟩ := ih later left
      exact ⟨rfl,rfl⟩
    | escaped => exact absurd (List.cons.inj same).1 noEscape
  | escaped c more ih =>
    cases inside' with
    | nil => cases stops'.eq_nil (.escaped c more) same.symm
    | plain _ noEscape => exact absurd (List.cons.inj same).1.symm noEscape
    | escaped _ later =>
      obtain ⟨rfl,left⟩ := List.cons.inj (List.cons.inj same).2
      obtain ⟨rfl,rfl⟩ := ih later left
      exact ⟨rfl,rfl⟩

theorem literalBefore_iff : LiteralBefore literal rest ↔ ∃ body stop, Body body ∧ AfterBody stop ∧
    literal = '"' :: (body ++ stop.take 1) ∧ rest = stop.drop 1 := by
  constructor
  · rintro (⟨inside,_⟩ | ⟨inside⟩ | ⟨inside⟩)
    · exact ⟨_,_,inside,.quote rest,rfl,rfl⟩
    · exact ⟨_,_,inside,.nil,by simp,rfl⟩
    · exact ⟨_,_,inside,.escape,rfl,rfl⟩
  · rintro ⟨body,_,inside,⟨⟩ | ⟨⟩ | ⟨rest⟩,rfl,rfl⟩
    · rw [List.take_nil,List.append_nil]
      exact .endless inside
    · exact .escape inside
    · exact .closed inside rest

theorem exists_literal (text : List Char) :
    ∃ literal rest, '"' :: text = literal ++ rest ∧ LiteralBefore literal rest := by
  obtain ⟨body,stop,rfl,inside,stops⟩ := exists_stop text
  refine ⟨_,_,?_,literalBefore_iff.mpr ⟨body,stop,inside,stops,rfl,rfl⟩⟩
  rw [List.cons_append,List.append_assoc,List.take_append_drop]

theorem LiteralBefore.append_inj {other rest' : List Char} (known : LiteralBefore literal rest)
    (known' : LiteralBefore other rest') (same : literal ++ rest = other ++ rest') :
    literal = other ∧ rest = rest' := by
  obtain ⟨body,stop,inside,stops,rfl,rfl⟩ := literalBefore_iff.mp known
  obtain ⟨body',stop',inside',stops',rfl,rfl⟩ := literalBefore_iff.mp known'
  rw [List.cons_append,List.append_assoc,List.take_append_drop,List.cons_append,List.append_assoc,
    List.take_append_drop] at same
  obtain ⟨rfl,rfl⟩ := inside.append_inj inside' stops stops' (List.cons.inj same).2
  exact ⟨rfl,rfl⟩

theorem LiteralBefore.exists_cons (known : LiteralBefore literal rest) : ∃ later, literal = '"' :: later := by
  obtain ⟨_,_,_,_,rfl,_⟩ := literalBefore_iff.mp known
  exact ⟨_,rfl⟩

-- Where comments stop

theorem line_append_inj {other rest' : List Char} (oneLine : '\n' ∉ comment) (oneLine' : '\n' ∉ other)
    (stops : ∀ c ∈ rest.head?, c = '\n') (stops' : ∀ c ∈ rest'.head?, c = '\n')
    (same : comment ++ rest = other ++ rest') : comment = other ∧ rest = rest' := by
  have noMore {line more after : List Char} (absent : '\n' ∉ line ++ more)
      (stops : ∀ c ∈ (more ++ after).head?, c = '\n') : more = [] := by
    cases more with
    | nil => rfl
    | cons c more =>
      cases stops c rfl
      exact absurd (by simp) absent
  rcases List.append_eq_append_iff.mp same with ⟨more,rfl,rfl⟩ | ⟨more,rfl,rfl⟩
  · cases noMore oneLine' stops
    simp
  · cases noMore oneLine stops'
    simp

theorem block_append_inj {other rest' : List Char} (closed : ¬['*','/'] <:+: comment)
    (closed' : ¬['*','/'] <:+: other)
    (same : comment ++ '*' :: '/' :: rest = other ++ '*' :: '/' :: rest') :
    comment = other ∧ rest = rest' := by
  have noMore {block more after after' : List Char} (closed : ¬['*','/'] <:+: block ++ more)
      (same : '*' :: '/' :: after = more ++ '*' :: '/' :: after') : more = [] := by
    match more with
    | [] => rfl
    | [c] => simp at same
    | c :: d :: more =>
      cases same
      exact absurd ⟨block,more,by simp⟩ closed
  rcases List.append_eq_append_iff.mp same with ⟨more,rfl,left⟩ | ⟨more,rfl,left⟩
  · cases noMore closed' left
    simpa using left
  · cases noMore closed left
    simpa using left.symm

theorem CommentBefore.exists_cons (known : CommentBefore comment rest) :
    ∃ c later, comment = '/' :: c :: later ∧ (c = '/' ∨ c = '*') := by
  cases known with
  | line => exact ⟨_,_,rfl,.inl rfl⟩
  | block => exact ⟨_,_,rfl,.inr rfl⟩
  | endless => exact ⟨_,_,rfl,.inr rfl⟩

theorem CommentBefore.append_inj {other rest' : List Char} (known : CommentBefore comment rest)
    (known' : CommentBefore other rest') (same : comment ++ rest = other ++ rest') :
    comment = other ∧ rest = rest' := by
  cases known with
  | line oneLine stops =>
    cases known' with
    | line oneLine' stops' =>
      obtain ⟨rfl,rfl⟩ := line_append_inj oneLine oneLine' stops stops' (by simpa using same)
      exact ⟨rfl,rfl⟩
    | _ => exact absurd same (by simp)
  | @block comment closed =>
    cases known' with
    | line => exact absurd same (by simp)
    | block closed' =>
      obtain ⟨rfl,rfl⟩ := block_append_inj closed closed' (by simpa using same)
      exact ⟨rfl,rfl⟩
    | endless endless' => exact absurd ⟨comment,rest,by simpa using same⟩ endless'
  | endless endless =>
    cases known' with
    | line => exact absurd same (by simp)
    | @block other closed' => exact absurd ⟨other,rest',by simpa using same.symm⟩ endless
    | endless endless' => exact ⟨by simpa using same,rfl⟩

-- Every text has its passages

theorem exists_passages (text : List Char) : ∃ passages, Passages text passages := by
  induction length : text.length using Nat.strongRecOn generalizing text with
  | ind size ih =>
    have later (shorter : List Char) (less : shorter.length < text.length) := ih _ (length ▸ less) shorter rfl
    cases start text with
    | nil => exact ⟨[],.nil⟩
    | @line comment rest oneLine =>
      obtain ⟨passages,known⟩ := later ('\n' :: rest) (by simp; omega)
      exact ⟨_,.comment (.line oneLine (by simp)) known⟩
    | @lastLine comment oneLine =>
      have last : CommentBefore ('/' :: '/' :: comment) [] := .line oneLine (by simp)
      exact ⟨_,by simpa using Passages.comment last .nil⟩
    | @block comment rest closed =>
      obtain ⟨passages,known⟩ := later rest (by simp; omega)
      have known := Passages.comment (.block closed rest) known
      exact ⟨_,by simpa using known⟩
    | @endless comment endless =>
      have known := Passages.comment (.endless endless) .nil
      exact ⟨_,by simpa using known⟩
    | string rest =>
      obtain ⟨literal,after,parted,first⟩ := exists_literal rest
      obtain ⟨tail,rfl⟩ := first.exists_cons
      have shorter : after.length < ('"' :: rest).length := by
        rw [parted,List.length_append,List.length_cons]
        omega
      obtain ⟨passages,known⟩ := later after shorter
      exact ⟨_,parted ▸ Passages.literal first known⟩
    | @character c rest noQuote kept =>
      obtain ⟨passages,known⟩ := later rest (by simp)
      refine ⟨_,.code noQuote ?_ known⟩
      rintro rfl
      -- a filler would be written in front of the character
      have written := kept ['x']
      intro d first
      constructor <;> rintro rfl
      all_goals
        cases rest with
        | nil => cases first
        | cons d rest =>
          cases first
          rw [replaceComments] at written
          cases written

theorem Passages.of_nil {passages : List Passage} (known : Passages [] passages) : passages = [] := by
  generalize whole : [] = text at known
  cases known with
  | nil => rfl
  | code => cases whole
  | literal first =>
    obtain ⟨later,rfl⟩ := first.exists_cons
    cases whole
  | comment first =>
    obtain ⟨_,later,rfl,_⟩ := first.exists_cons
    cases whole

theorem Passages.of_literal {passages : List Passage} (first : LiteralBefore literal rest)
    (known : Passages (literal ++ rest) passages) :
    ∃ later, passages = .literal literal :: later ∧ Passages rest later := by
  generalize whole : literal ++ rest = text at known
  cases known with
  | literal first' later =>
    obtain ⟨rfl,rfl⟩ := first.append_inj first' whole
    exact ⟨_,rfl,later⟩
  | nil =>
    obtain ⟨later,rfl⟩ := first.exists_cons
    cases whole
  | code noQuote =>
    obtain ⟨later,rfl⟩ := first.exists_cons
    exact absurd (List.cons.inj whole).1.symm noQuote
  | comment first' =>
    obtain ⟨later,rfl⟩ := first.exists_cons
    obtain ⟨_,later',rfl,_⟩ := first'.exists_cons
    cases whole

theorem Passages.of_cons {passages : List Passage} (noQuote : c ≠ '"') (known : Passages (c :: rest) passages) :
    (∃ later, (c = '/' → ∀ d ∈ rest.head?, d ≠ '/' ∧ d ≠ '*') ∧ passages = .code c :: later ∧
        Passages rest later) ∨
      ∃ comment after later, c :: rest = comment ++ after ∧ CommentBefore comment after ∧
        passages = .comment comment :: later ∧ Passages after later := by
  generalize whole : c :: rest = text at known
  cases known with
  | nil => cases whole
  | code _ noComment later =>
    cases whole
    exact .inl ⟨_,noComment,rfl,later⟩
  | literal first =>
    obtain ⟨later,rfl⟩ := first.exists_cons
    exact absurd (List.cons.inj whole).1 noQuote
  | comment first later => exact .inr ⟨_,_,_,rfl,first,rfl,later⟩

theorem Passages.of_comment {passages : List Passage} (first : CommentBefore comment rest)
    (known : Passages (comment ++ rest) passages) :
    ∃ later, passages = .comment comment :: later ∧ Passages rest later := by
  obtain ⟨d,tail,rfl,opening⟩ := first.exists_cons
  rcases known.of_cons (by decide) with ⟨_,noComment,_⟩ | ⟨other,after,later,same,first',rfl,left⟩
  · obtain ⟨noLine,noBlock⟩ := noComment rfl d rfl
    exact absurd opening (not_or.mpr ⟨noLine,noBlock⟩)
  · obtain ⟨rfl,rfl⟩ := first.append_inj first' same
    exact ⟨later,rfl,left⟩

theorem Passages.unique {text : List Char} {passages other : List Passage} (known : Passages text passages)
    (known' : Passages text other) : other = passages := by
  induction known generalizing other with
  | nil => exact known'.of_nil
  | code noQuote noComment _ ih =>
    rcases known'.of_cons noQuote with ⟨later,_,rfl,left⟩ | ⟨comment,after,_,same,first,_⟩
    · rw [ih left]
    · obtain ⟨d,tail,rfl,opening⟩ := first.exists_cons
      cases same
      obtain ⟨noLine,noBlock⟩ := noComment rfl d rfl
      exact absurd opening (not_or.mpr ⟨noLine,noBlock⟩)
  | literal first _ ih =>
    obtain ⟨later,rfl,left⟩ := known'.of_literal first
    rw [ih left]
  | comment first _ ih =>
    obtain ⟨later,rfl,left⟩ := known'.of_comment first
    rw [ih left]

-- What is left of them

theorem LiteralBefore.kept (known : LiteralBefore literal rest) :
    dropComments .plain (literal ++ rest) = literal ++ dropComments .plain rest := by
  have keeps := keepsStrings_dropComments
  obtain ⟨body,stop,inside,stops,rfl,rfl⟩ := literalBefore_iff.mp known
  rw [List.cons_append,List.append_assoc,List.take_append_drop,keeps.opens,
    inside.copied keeps.toFollowsStrings,List.cons_append,List.append_assoc]
  cases stops with
  | nil => rw [keeps.nothing]; rfl
  | escape => rw [keeps.escape]; rfl
  | quote rest => rw [keeps.closes]; rfl

theorem CommentBefore.dropped (known : CommentBefore comment rest) :
    dropComments .plain (comment ++ rest) = dropComments .plain rest := by
  rw [← replaceComments_nil]
  cases known with
  | line oneLine stops =>
    rw [List.cons_append,List.cons_append,replaceComments,List.nil_append,replaceComments_line oneLine]
    cases rest with
    | nil => rw [replaceComments,replaceComments]
    | cons c rest =>
      cases stops c rfl
      have copied : replaceComments [] .plain ('\n' :: rest) = _ :=
        replaceComments_copies (by decide) (by decide) rest
      rw [copied,replaceComments]
      rfl
  | block closed =>
    rw [List.cons_append,List.cons_append,List.append_assoc,replaceComments,List.nil_append]
    exact replaceComments_block closed rest
  | endless endless =>
    rw [List.append_nil,replaceComments,replaceComments,List.nil_append,replaceComments_endless endless]

theorem dropComments_code (noQuote : c ≠ '"') (noComment : c = '/' → ∀ d ∈ rest.head?, d ≠ '/' ∧ d ≠ '*') :
    dropComments .plain (c :: rest) = c :: dropComments .plain rest := by
  apply dropComments.eq_5 c rest noQuote
  · rintro _ slash rfl
    exact (noComment slash '/' rfl).1 rfl
  · rintro _ slash rfl
    exact (noComment slash '*' rfl).2 rfl

theorem Passages.dropComments_eq {text : List Char} {passages : List Passage}
    (known : Passages text passages) :
    dropComments .plain text = (passages.filter (!·.isComment)).flatMap Passage.text := by
  induction known with
  | nil => rw [dropComments]; rfl
  | code noQuote noComment _ ih =>
    rw [dropComments_code noQuote noComment,ih]
    rfl
  | literal first _ ih =>
    rw [first.kept,ih]
    rfl
  | comment first _ ih =>
    rw [first.dropped,ih]
    rfl

/-- A text that does not start with a comment keeps its first character. -/
theorem head?_dropComments {text : List Char} (noSlash : ∀ c ∈ text.head?, c ≠ '/') :
    (dropComments .plain text).head? = text.head? := by
  cases text with
  | nil => rw [dropComments]
  | cons c rest =>
    by_cases quote : c = '"'
    · subst quote
      rw [keepsStrings_dropComments.opens]
      rfl
    · rw [dropComments_code quote fun slash => absurd slash (noSlash c rfl)]
      rfl

theorem LiteralBefore.dropComments (known : LiteralBefore literal rest) :
    LiteralBefore literal (dropComments .plain rest) := by
  cases known with
  | closed inside => exact .closed inside _
  | endless inside => exact .endless inside
  | escape inside => exact .escape inside

theorem Passages.left {text : List Char} {passages : List Passage} (known : Passages text passages) :
    Passages (dropComments .plain text) (passages.filter (!·.isComment)) := by
  induction known with
  | nil =>
    rw [dropComments]
    exact .nil
  | code noQuote noComment _ ih =>
    rw [dropComments_code noQuote noComment]
    refine .code noQuote (fun slash => ?_) ih
    rw [head?_dropComments fun c first => (noComment slash c first).1]
    exact noComment slash
  | literal first _ ih =>
    rw [first.kept]
    exact .literal first.dropComments ih
  | comment first _ ih =>
    rw [first.dropped]
    exact ih

-- No comments are left

theorem Passages.after_outside {front : List Char} {passages : List Passage} (outside : Outside front)
    (known : Passages (front ++ rest) passages) (none : ∀ passage ∈ passages, passage.isComment = false) :
    ∃ later, Passages rest later ∧ ∀ passage ∈ later, passage.isComment = false := by
  induction outside generalizing passages with
  | nil => exact ⟨passages,known,none⟩
  | code noQuote _ ih =>
    rcases known.of_cons noQuote with ⟨later,_,rfl,left⟩ | ⟨_,_,_,_,_,rfl,_⟩
    · exact ih left (List.forall_mem_cons.mp none).2
    · exact absurd (List.forall_mem_cons.mp none).1.symm Bool.false_ne_true
  | @literal body middle inside _ ih =>
    have first : LiteralBefore ('"' :: (body ++ ['"'])) (middle ++ rest) := .closed inside _
    obtain ⟨later,rfl,left⟩ := Passages.of_literal first (by simpa using known)
    exact ih left (List.forall_mem_cons.mp none).2

/-- Every text has exactly one division into passages. Removing comments takes away the passages that are
comments and nothing else, and the others are the passages of what is left. Outside of literals no slash
has a slash or a star after it there, and removing comments again changes nothing. -/
theorem dropComments_exact (text : List Char) : ∃ passages, Passages text passages ∧
    (∀ other, Passages text other → other = passages) ∧
    dropComments .plain text = (passages.filter (!·.isComment)).flatMap Passage.text ∧
    Passages (dropComments .plain text) (passages.filter (!·.isComment)) ∧
    (∀ front c back, dropComments .plain text = front ++ '/' :: c :: back → Outside front →
      c ≠ '/' ∧ c ≠ '*') ∧
    dropComments .plain (dropComments .plain text) = dropComments .plain text := by
  obtain ⟨passages,known⟩ := exists_passages text
  have none : ∀ passage ∈ passages.filter (!·.isComment), passage.isComment = false := by simp
  refine ⟨passages,known,fun other known' => known.unique known',known.dropComments_eq,known.left,?_,?_⟩
  · intro front c back same outside
    obtain ⟨later,left,none⟩ := Passages.after_outside outside (same ▸ known.left) none
    rcases left.of_cons (by decide) with ⟨_,noComment,_⟩ | ⟨_,_,_,_,_,rfl,_⟩
    · exact noComment rfl c rfl
    · exact absurd (List.forall_mem_cons.mp none).1.symm Bool.false_ne_true
  · rw [known.left.dropComments_eq,List.filter_filter,known.dropComments_eq]
    simp

/-- A quote in a comment opens no literal, and a literal without an end keeps what looks like a comment. -/
example : dropComments .plain "a/*\"*/b//\"\n\"/*\\".toList = "ab\n\"/*\\".toList := by decide

end SourceAtlas.Json
