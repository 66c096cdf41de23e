import Mathlib.Data.List.Forall2
import SourceAtlas.CompilerOptions
import SourceAtlas.Proofs.SpelledJson

/-! JSON with comments and with commas before closing brackets says the same as plain JSON. What both
passes over the text share is how they follow strings; the rest is a fact about gaps for the first
pass and about lexemes for the second. -/
namespace SourceAtlas.Json

-- The commented form of a value

/-- White space and comments. A line comment has its line break, and a block comment ends at the first
place where it can end. -/
inductive Remarks : List Char → Prop
  | nil : Remarks []
  | blank {c : Char} {rest : List Char} (space : isSpace c = true) (later : Remarks rest) :
    Remarks (c :: rest)
  | line {comment rest : List Char} (oneLine : '\n' ∉ comment) (later : Remarks rest) :
    Remarks ('/' :: '/' :: (comment ++ '\n' :: rest))
  | block {comment rest : List Char} (closed : ¬['*','/'] <:+: comment) (later : Remarks rest) :
    Remarks ('/' :: '*' :: (comment ++ '*' :: '/' :: rest))

/-- What may follow the last lexeme: the end of the text also ends a line comment. -/
inductive LastRemarks : List Char → Prop
  | closed {text : List Char} (remarks : Remarks text) : LastRemarks text
  | line {text comment : List Char} (remarks : Remarks text) (oneLine : '\n' ∉ comment) :
    LastRemarks (text ++ '/' :: '/' :: comment)

/-- The end of a container. A comma may stand in front of the closing mark if there is anything in the
container. -/
inductive Closing (closing : Mark) (parts : List (List Lexeme)) : List Lexeme → Prop
  | plain : Closing closing parts [.mark closing]
  | comma (filled : parts ≠ []) : Closing closing parts [.mark .comma,.mark closing]

/-- The lexemes of a value, with or without a comma at the end of each of its containers. -/
inductive Loose : Spelled → List Lexeme → Prop
  | scalar (value : Scalar) : Loose (.scalar value) [.scalar value]
  | array {items : List Spelled} {parts : List (List Lexeme)} {ending : List Lexeme}
    (each : List.Forall₂ Loose items parts) (closing : Closing .closeArray parts ending) :
    Loose (.array items) (.mark .openArray :: (commaSeparated parts ++ ending))
  | object {members : List (SpelledString × Spelled)} {values parts : List (List Lexeme)}
    {ending : List Lexeme} (each : List.Forall₂ (fun member value => Loose member.2 value) members values)
    (spelled : parts = members.zipWith (fun member value => memberPart member.1 value) values)
    (closing : Closing .closeObject parts ending) :
    Loose (.object members) (.mark .openObject :: (commaSeparated parts ++ ending))

def Commented (value : Spelled) (text : List Char) : Prop :=
  ∃ lexemes, Loose value lexemes ∧ Layout Remarks LastRemarks lexemes text

-- What both passes share

def Copies (pass : List Char → List Char) (text : List Char) : Prop :=
  ∀ rest, pass (text ++ rest) = text ++ pass rest

theorem Copies.append {pass : List Char → List Char} {first second : List Char}
    (left : Copies pass first) (right : Copies pass second) : Copies pass (first ++ second) := by
  intro rest
  rw [List.append_assoc,left,right,List.append_assoc]

theorem copies_of_forall {pass : List Char → List Char} {text : List Char}
    (each : ∀ c ∈ text, Copies pass [c]) : Copies pass text := by
  induction text with
  | nil => exact fun _ => rfl
  | cons c text ih =>
    obtain ⟨here,later⟩ := List.forall_mem_cons.mp each
    exact Copies.append here (ih later)

/-- How a pass follows strings: outside of them a quote opens one; inside, a backslash takes the next
character with it, and a quote ends the string. -/
structure FollowsStrings (outside inside : List Char → List Char) : Prop where
  opens : ∀ rest, outside ('"' :: rest) = '"' :: inside rest
  closes : ∀ rest, inside ('"' :: rest) = '"' :: outside rest
  escaped : ∀ c rest, inside ('\\' :: c :: rest) = '\\' :: c :: inside rest
  within : ∀ c, c ≠ '"' → c ≠ '\\' → Copies inside [c]

/-- The inside of a string: a backslash takes the next character with it, and else there is no quote. -/
inductive Body : List Char → Prop
  | nil : Body []
  | plain {c : Char} {body : List Char} (noQuote : c ≠ '"') (noEscape : c ≠ '\\') (later : Body body) :
    Body (c :: body)
  | escaped (c : Char) {body : List Char} (later : Body body) : Body ('\\' :: c :: body)

theorem Body.copied {outside inside : List Char → List Char} (follows : FollowsStrings outside inside)
    {body : List Char} (known : Body body) : Copies inside body := by
  induction known with
  | nil => exact fun _ => rfl
  | plain noQuote noEscape _ ih => exact Copies.append (follows.within _ noQuote noEscape) ih
  | escaped c _ ih =>
    have first : Copies inside ['\\',c] := follows.escaped c
    exact first.append ih

theorem SpelledString.inside (pieces : SpelledString) : Body pieces.body := by
  have hexDigit {c : Char} {body : List Char} (known : (Text.hexValue? c).isSome = true)
      (later : Body body) : Body (c :: body) := by
    refine .plain ?_ ?_ later <;> (rintro rfl; exact absurd known (by decide))
  induction pieces with
  | nil => exact .nil
  | cons piece pieces ih =>
    cases piece with
    | plain c _ noQuote noEscape => exact .plain noQuote noEscape ih
    | escape letter => exact .escaped letter ih
    | unit a b c d value hex =>
      obtain ⟨first,second,third,fourth⟩ := hexDigits_of_hexValue4? hex
      exact .escaped 'u' (hexDigit first (hexDigit second (hexDigit third (hexDigit fourth ih))))

theorem SpelledString.copied {outside inside : List Char → List Char}
    (follows : FollowsStrings outside inside) (pieces : SpelledString) : Copies outside pieces.text := by
  intro rest
  rw [SpelledString.text,List.cons_append,follows.opens,List.append_assoc,pieces.inside.copied follows,
    List.singleton_append,follows.closes]
  simp

def Bare (c : Char) : Prop := c ≠ '"' ∧ c ≠ '/' ∧ c ≠ ','

theorem Scalar.copied {outside inside : List Char → List Char} (follows : FollowsStrings outside inside)
    (bare : ∀ c, Bare c → Copies outside [c]) (value : Scalar) : Copies outside value.text := by
  have word {letters : List Char} (each : ∀ c ∈ letters, Bare c) : Copies outside letters :=
    copies_of_forall fun c member => bare c (each c member)
  cases value with
  | null => exact word (by simp [Bare,Scalar.text])
  | bool value => cases value <;> exact word (by simp [Bare,Scalar.text])
  | number numeral =>
    apply word
    intro c member
    have inside := numeral.inNumeral member
    exact ⟨inside.ne rfl (by decide),inside.ne rfl (by decide),inside.ne rfl (by decide)⟩
  | string pieces => exact pieces.copied follows

-- Comments

/-- Writes a filler for each comment, and else what `dropComments` writes. -/
def replaceComments (filler : List Char) : Region → List Char → List Char
  | _, [] => []
  | .plain, '"' :: rest => '"' :: replaceComments filler .text rest
  | .plain, '/' :: '/' :: rest => filler ++ replaceComments filler .lineComment rest
  | .plain, '/' :: '*' :: rest => filler ++ replaceComments filler .blockComment rest
  | .plain, c :: rest => c :: replaceComments filler .plain rest
  | .text, '\\' :: c :: rest => '\\' :: c :: replaceComments filler .text rest
  | .text, '"' :: rest => '"' :: replaceComments filler .plain rest
  | .text, c :: rest => c :: replaceComments filler .text rest
  | .lineComment, '\n' :: rest => '\n' :: replaceComments filler .plain rest
  | .lineComment, _ :: rest => replaceComments filler .lineComment rest
  | .blockComment, '*' :: '/' :: rest => replaceComments filler .plain rest
  | .blockComment, _ :: rest => replaceComments filler .blockComment rest

attribute [local simp] replaceComments

theorem replaceComments_nil : replaceComments [] = dropComments := by
  funext region text
  fun_induction dropComments region text <;> simp_all

variable {filler : List Char}

theorem followsStrings_replaceComments :
    FollowsStrings (replaceComments filler .plain) (replaceComments filler .text) where
  opens _ := by rw [replaceComments]
  closes _ := by rw [replaceComments]
  escaped _ _ := by rw [replaceComments]
  within c noQuote noEscape rest :=
    replaceComments.eq_8 filler c rest (fun _ _ same _ => noEscape same) noQuote

theorem replaceComments_copies {c : Char} (noQuote : c ≠ '"') (noSlash : c ≠ '/') :
    Copies (replaceComments filler .plain) [c] := fun rest =>
  replaceComments.eq_5 filler c rest noQuote (fun _ same _ => noSlash same) (fun _ same _ => noSlash same)

theorem Lexeme.replaceComments_copies (lexeme : Lexeme) :
    Copies (replaceComments filler .plain) lexeme.text := by
  cases lexeme with
  | mark sign => cases sign <;> exact Json.replaceComments_copies (by decide) (by decide)
  | scalar value =>
    exact value.copied followsStrings_replaceComments fun c bare =>
      Json.replaceComments_copies bare.1 bare.2.1

theorem replaceComments_line {comment : List Char} (oneLine : '\n' ∉ comment) (rest : List Char) :
    replaceComments filler .lineComment (comment ++ rest) = replaceComments filler .lineComment rest := by
  induction comment with
  | nil => rfl
  | cons c comment ih =>
    obtain ⟨here,later⟩ := List.ne_and_not_mem_of_not_mem_cons oneLine
    rw [List.cons_append,replaceComments.eq_10 filler c _ (Ne.symm here),ih later]

theorem replaceComments_lastLine {comment : List Char} (oneLine : '\n' ∉ comment) :
    replaceComments filler .lineComment comment = [] := by
  have emptied : replaceComments filler .lineComment (comment ++ []) = _ := replaceComments_line oneLine []
  rwa [List.append_nil,replaceComments] at emptied

theorem replaceComments_block {comment : List Char} (closed : ¬['*','/'] <:+: comment) (rest : List Char) :
    replaceComments filler .blockComment (comment ++ '*' :: '/' :: rest) =
      replaceComments filler .plain rest := by
  induction comment with
  | nil => rw [List.nil_append,replaceComments]
  | cons c comment ih =>
    have later : ¬['*','/'] <:+: comment := fun found => closed (List.infix_cons found)
    rw [List.cons_append,replaceComments.eq_12,ih later]
    rintro after rfl slash
    cases comment with
    | nil => exact absurd (List.cons.inj slash).1 (by decide)
    | cons d comment =>
      obtain ⟨rfl,_⟩ := List.cons.inj slash
      exact closed ⟨[],comment,rfl⟩

theorem Remarks.replaced (blank : Blanks filler) {gap : List Char} (remarks : Remarks gap) :
    ∃ blanks, Blanks blanks ∧ ∀ rest,
      replaceComments filler .plain (gap ++ rest) = blanks ++ replaceComments filler .plain rest := by
  induction remarks with
  | nil => exact ⟨[],.nil,fun _ => rfl⟩
  | @blank c gap space _ ih =>
    obtain ⟨blanks,known,kept⟩ := ih
    have noQuote : c ≠ '"' := by rintro rfl; exact absurd space (by decide)
    have noSlash : c ≠ '/' := by rintro rfl; exact absurd space (by decide)
    refine ⟨c :: blanks,List.forall_mem_cons.mpr ⟨space,known⟩,fun rest => ?_⟩
    rw [List.cons_append,List.cons_append,← kept]
    exact replaceComments_copies noQuote noSlash _
  | line oneLine _ ih =>
    obtain ⟨blanks,known,kept⟩ := ih
    refine ⟨filler ++ '\n' :: blanks,
      List.forall_mem_append.mpr ⟨blank,List.forall_mem_cons.mpr ⟨rfl,known⟩⟩,fun rest => ?_⟩
    rw [List.cons_append,List.cons_append,replaceComments,List.append_assoc,
      replaceComments_line oneLine,List.cons_append,replaceComments,kept,List.append_assoc]
    rfl
  | block closed _ ih =>
    obtain ⟨blanks,known,kept⟩ := ih
    refine ⟨filler ++ blanks,List.forall_mem_append.mpr ⟨blank,known⟩,fun rest => ?_⟩
    rw [List.cons_append,List.cons_append,replaceComments,List.append_assoc,List.cons_append,
      List.cons_append,replaceComments_block closed,kept,List.append_assoc]

theorem LastRemarks.replaced (blank : Blanks filler) {gap : List Char} (remarks : LastRemarks gap) :
    Blanks (replaceComments filler .plain gap) := by
  cases remarks with
  | closed remarks =>
    obtain ⟨blanks,known,kept⟩ := remarks.replaced blank
    have whole := kept []
    rw [List.append_nil,replaceComments,List.append_nil] at whole
    exact whole ▸ known
  | @line _ comment remarks oneLine =>
    obtain ⟨blanks,known,kept⟩ := remarks.replaced blank
    rw [kept,replaceComments,replaceComments_lastLine oneLine,List.append_nil]
    exact List.forall_mem_append.mpr ⟨known,blank⟩

/-- With blanks for its comments a text has the same lexemes, with blanks between them. -/
theorem Layout.replaceComments (blank : Blanks filler) {lexemes : List Lexeme} {text : List Char}
    (layout : Layout Remarks LastRemarks lexemes text) :
    Layout Blanks Blanks lexemes (replaceComments filler .plain text) := by
  induction layout with
  | nil end' => exact .nil (end'.replaced blank)
  | @cons before text lexeme lexemes start _ ih =>
    obtain ⟨blanks,known,kept⟩ := start.replaced blank
    rw [kept,lexeme.replaceComments_copies]
    exact .cons known ih

theorem Layout.dropComments {lexemes : List Lexeme} {text : List Char}
    (layout : Layout Remarks LastRemarks lexemes text) :
    Layout Blanks Blanks lexemes (dropComments .plain text) :=
  replaceComments_nil ▸ layout.replaceComments .nil

-- Commas before closing marks

def closedNext : List Lexeme → Bool
  | .mark sign :: _ => sign.closes
  | _ => false

/-- The lexemes without the commas before closing marks. -/
def strict : List Lexeme → List Lexeme
  | [] => []
  | .mark .comma :: rest => if closedNext rest then strict rest else .mark .comma :: strict rest
  | lexeme :: rest => lexeme :: strict rest

theorem followsStrings_dropTrailingCommas :
    FollowsStrings (dropTrailingCommas false) (dropTrailingCommas true) where
  opens _ := by rw [dropTrailingCommas]
  closes _ := by rw [dropTrailingCommas]
  escaped _ _ := by rw [dropTrailingCommas]
  within c noQuote noEscape rest :=
    dropTrailingCommas.eq_7 c rest (fun _ _ same _ => noEscape same) noQuote

theorem dropTrailingCommas_copies {c : Char} (noQuote : c ≠ '"') (noComma : c ≠ ',') :
    Copies (dropTrailingCommas false) [c] := fun rest =>
  dropTrailingCommas.eq_4 c rest noQuote noComma

theorem Lexeme.dropTrailingCommas_copies {lexeme : Lexeme} (noComma : lexeme ≠ .mark .comma) :
    Copies (dropTrailingCommas false) lexeme.text := by
  cases lexeme with
  | scalar value =>
    exact value.copied followsStrings_dropTrailingCommas fun c bare =>
      Json.dropTrailingCommas_copies bare.1 bare.2.2
  | mark sign =>
    cases sign with
    | comma => exact absurd rfl noComma
    | _ => exact Json.dropTrailingCommas_copies (by decide) (by decide)

theorem dropTrailingCommas_blanks {blanks : List Char} (blank : Blanks blanks) :
    Copies (dropTrailingCommas false) blanks := by
  apply copies_of_forall
  intro c member
  have space := blank c member
  apply dropTrailingCommas_copies <;> (rintro rfl; exact absurd space (by decide))

theorem isBlank_of_isSpace {c : Char} (space : isSpace c = true) : Text.isBlank c = true := by
  simp only [isSpace,Bool.or_eq_true,beq_iff_eq] at space
  rcases space with ((rfl | rfl) | rfl) | rfl <;> decide

theorem closesNext_blanks {blanks : List Char} (blank : Blanks blanks) (rest : List Char) :
    closesNext (blanks ++ rest) = closesNext rest := by
  have skipped : (blanks ++ rest).dropWhile Text.isBlank = rest.dropWhile Text.isBlank := by
    apply List.dropWhile_append_of_pos
    exact fun c member => isBlank_of_isSpace (blank c member)
  rw [closesNext,closesNext,skipped]

theorem closesNext_solid {c : Char} (solid : Text.isBlank c = false) (rest : List Char) :
    closesNext (c :: rest) = (c == ']' || c == '}') := by
  have kept : (c :: rest).dropWhile Text.isBlank = c :: rest := by simp [solid]
  rw [closesNext,kept]
  split <;> simp_all

theorem InNumeral.solid {c : Char} (inside : InNumeral c) : Text.isBlank c = false := by
  obtain ⟨low,high⟩ := inside.bounds
  simp only [Text.isBlank,Bool.or_eq_false_iff,Bool.and_eq_false_iff,decide_eq_false_iff_not,
    beq_eq_false_iff_ne]
  omega

theorem Scalar.closesNext_text (value : Scalar) (rest : List Char) :
    closesNext (value.text ++ rest) = false := by
  cases value with
  | null => rfl
  | bool value => cases value <;> rfl
  | number numeral =>
    obtain ⟨c,later,spelled⟩ : ∃ c later, numeral.text = c :: later :=
      List.exists_cons_of_ne_nil (by simp [Numeral.text,Digits.text])
    have inside : InNumeral c := numeral.inNumeral (spelled ▸ List.mem_cons_self)
    have noArray : c ≠ ']' := inside.ne rfl (by decide)
    have noObject : c ≠ '}' := inside.ne rfl (by decide)
    rw [Scalar.text,spelled,List.cons_append,closesNext_solid inside.solid]
    simp [noArray,noObject]
  | string pieces => rfl

theorem Layout.closesNext_eq {lexemes : List Lexeme} {text : List Char}
    (layout : Layout Blanks Blanks lexemes text) : closesNext text = closedNext lexemes := by
  cases layout with
  | nil blank => rw [← List.append_nil text,closesNext_blanks blank]; rfl
  | @cons before text lexeme lexemes start _ =>
    rw [closesNext_blanks start]
    cases lexeme with
    | scalar value => exact value.closesNext_text text
    | mark sign => cases sign <;> rfl

theorem strict_of_ne {lexeme : Lexeme} (noComma : lexeme ≠ .mark .comma) (rest : List Lexeme) :
    strict (lexeme :: rest) = lexeme :: strict rest :=
  strict.eq_3 lexeme rest noComma

theorem Layout.dropTrailingCommas {lexemes : List Lexeme} {text : List Char}
    (layout : Layout Blanks Blanks lexemes text) :
    Layout Blanks Blanks (strict lexemes) (dropTrailingCommas false text) := by
  induction layout with
  | nil blank =>
    have same := dropTrailingCommas_blanks blank []
    rw [List.append_nil,Json.dropTrailingCommas,List.append_nil] at same
    rw [same,strict]
    exact .nil blank
  | @cons before text lexeme lexemes start rest ih =>
    rw [dropTrailingCommas_blanks start]
    by_cases comma : lexeme = .mark .comma
    · subst comma
      change Layout _ _ _ (before ++ Json.dropTrailingCommas false (',' :: text))
      rw [Json.dropTrailingCommas,rest.closesNext_eq,strict]
      split
      · exact ih.blanks_append start
      · exact .cons start ih
    · rw [lexeme.dropTrailingCommas_copies comma,strict_of_ne comma]
      exact .cons start ih

-- The lexemes of a value

/-- Lexemes that are others but for commas before closing marks, wherever they stand. -/
structure Cleaned (loose plain : List Lexeme) : Prop where
  opens : ∀ rest, closedNext (loose ++ rest) = false
  strict : ∀ rest, strict (loose ++ rest) = plain ++ strict rest

theorem Cleaned.cons {lexeme : Lexeme} {loose plain : List Lexeme} (noComma : lexeme ≠ .mark .comma)
    (noClose : ∀ rest, closedNext (lexeme :: rest) = false)
    (rest : ∀ after, Json.strict (loose ++ after) = plain ++ Json.strict after) :
    Cleaned (lexeme :: loose) (lexeme :: plain) where
  opens after := noClose (loose ++ after)
  strict after := by rw [List.cons_append,strict_of_ne noComma,rest,List.cons_append]

theorem strict_ending {closing : Mark} {parts : List (List Lexeme)} {ending : List Lexeme}
    (closes : closing.closes = true) (closed : Closing closing parts ending) (rest : List Lexeme) :
    strict (ending ++ rest) = .mark closing :: strict rest := by
  have noComma : Lexeme.mark closing ≠ .mark .comma := by
    rintro same
    cases same
    exact absurd closes (by decide)
  cases closed with
  | plain => exact strict_of_ne noComma rest
  | comma filled =>
    change strict (.mark .comma :: .mark closing :: rest) = _
    rw [strict,closedNext,if_pos closes,strict_of_ne noComma]

theorem strict_comma {rest : List Lexeme} (goesOn : closedNext rest = false) :
    strict (.mark .comma :: rest) = .mark .comma :: strict rest := by
  rw [strict,goesOn]
  rfl

theorem strict_flatMap_comma {parts plain : List (List Lexeme)} (each : List.Forall₂ Cleaned parts plain)
    (rest : List Lexeme) :
    strict (parts.flatMap (.mark .comma :: ·) ++ rest) =
      plain.flatMap (.mark .comma :: ·) ++ strict rest := by
  induction each with
  | nil => rfl
  | cons here _ ih =>
    rw [List.flatMap_cons,List.flatMap_cons,List.append_assoc,List.cons_append,
      strict_comma (here.opens _),here.strict,ih]
    simp

theorem strict_commaSeparated {parts plain : List (List Lexeme)} (each : List.Forall₂ Cleaned parts plain)
    (rest : List Lexeme) :
    strict (commaSeparated parts ++ rest) = commaSeparated plain ++ strict rest := by
  cases each with
  | nil => rfl
  | cons here later =>
    rw [commaSeparated_cons,commaSeparated_cons,List.append_assoc,here.strict,
      strict_flatMap_comma later,List.append_assoc]

theorem cleaned_container {opening closing : Mark} {parts plain : List (List Lexeme)}
    {ending : List Lexeme} (opens : opening ≠ .comma ∧ opening.closes = false)
    (closes : closing.closes = true) (each : List.Forall₂ Cleaned parts plain)
    (closed : Closing closing parts ending) :
    Cleaned (.mark opening :: (commaSeparated parts ++ ending))
      (.mark opening :: (commaSeparated plain ++ [.mark closing])) := by
  refine .cons (fun same => opens.1 (Lexeme.mark.inj same)) (fun _ => opens.2) fun rest => ?_
  rw [List.append_assoc,strict_commaSeparated each,strict_ending closes closed]
  simp

theorem cleaned_member (key : SpelledString) {loose plain : List Lexeme} (value : Cleaned loose plain) :
    Cleaned (memberPart key loose) (memberPart key plain) := by
  refine .cons (by simp) (fun _ => rfl) fun rest => ?_
  rw [List.cons_append,strict_of_ne (by simp),value.strict,List.cons_append]

theorem cleaned_members {members : List (SpelledString × Spelled)} {values : List (List Lexeme)}
    (each : List.Forall₂ (fun member value => Cleaned value member.2.lexemes) members values) :
    List.Forall₂ Cleaned (members.zipWith (fun member value => memberPart member.1 value) values)
      (Spelled.memberParts members) := by
  induction each with
  | nil => exact .nil
  | cons here _ ih => exact .cons (cleaned_member _ here) ih

theorem Loose.cleaned {value : Spelled} {lexemes : List Lexeme} (loose : Loose value lexemes) :
    Cleaned lexemes value.lexemes := by
  induction value using Spelled.induction generalizing lexemes with
  | scalar value =>
    cases loose
    exact .cons (by simp) (fun _ => rfl) fun _ => rfl
  | array items ih =>
    cases loose with
    | @array _ parts _ each closing =>
      refine cleaned_container (by decide) rfl ?_ closing
      have known : ∀ item ∈ items, ∀ part, Loose item part → Cleaned part item.lexemes :=
        fun item inside _ => ih item inside
      have both := (List.forall₂_and_left items parts).mpr ⟨known,each⟩
      rw [Spelled.itemParts_eq_map,List.forall₂_map_right_iff]
      exact (both.imp fun _ part here => here.1 part here.2).flip
  | object members ih =>
    cases loose with
    | @object _ values parts _ each spelled closing =>
      have known : ∀ member ∈ members, ∀ value, Loose member.2 value →
          Cleaned value member.2.lexemes := fun member inside _ => ih member inside
      have both := (List.forall₂_and_left members values).mpr ⟨known,each⟩
      refine cleaned_container (by decide) rfl ?_ closing
      rw [spelled]
      exact cleaned_members (both.imp fun _ value here => here.1 value here.2)

theorem Spelled.loose_lexemes (value : Spelled) : Loose value value.lexemes := by
  induction value using Spelled.induction with
  | scalar value => exact .scalar value
  | array items ih =>
    refine .array ?_ .plain
    rw [Spelled.itemParts_eq_map,List.forall₂_map_right_iff,List.forall₂_same]
    exact ih
  | object members ih =>
    refine .object (List.forall₂_map_right_iff.mpr (List.forall₂_same.mpr ih)) ?_ .plain
    rw [Spelled.memberParts_eq_map,List.zipWith_map_right,List.zipWith_self]

theorem Remarks.of_blanks {text : List Char} (blank : Blanks text) : Remarks text := by
  induction text with
  | nil => exact .nil
  | cons c text ih =>
    obtain ⟨here,later⟩ := List.forall_mem_cons.mp blank
    exact .blank here (ih later)

theorem Layout.commented {lexemes : List Lexeme} {text : List Char}
    (layout : Layout Blanks Blanks lexemes text) : Layout Remarks LastRemarks lexemes text := by
  induction layout with
  | nil blank => exact .nil (.closed (.of_blanks blank))
  | cons start _ ih => exact .cons (.of_blanks start) ih

theorem Spelled.commented {value : Spelled} {text : List Char}
    (layout : Layout Blanks Blanks value.lexemes text) : Commented value text :=
  ⟨value.lexemes,value.loose_lexemes,layout.commented⟩

theorem Commented.layout {value : Spelled} {text : List Char} (commented : Commented value text) :
    Layout Blanks Blanks value.lexemes (plainForm text) := by
  obtain ⟨lexemes,loose,layout⟩ := commented
  have cleaned := loose.cleaned.strict []
  rw [List.append_nil,strict,List.append_nil] at cleaned
  exact cleaned ▸ layout.dropComments.dropTrailingCommas

theorem Commented.tokens_plainForm {value : Spelled} {text : List Char}
    (commented : Commented value text) :
    tokens (plainForm text) = value.lexemes.map Lexeme.token :=
  commented.layout.tokens_eq value.isChain_lexemes

end SourceAtlas.Json

namespace SourceAtlas.CompilerOptions

open Json

/-- A value with comments and commas at the ends of containers is reduced to the lexemes of the value,
each spelled as it was and with blanks between them, so it is read as the plain value is: it gives the
same options, or the same fault. -/
theorem ofText_commented {value : Spelled} {text plain : List Char} (commented : Commented value text)
    (layout : Layout Blanks Blanks value.lexemes plain) :
    Layout Blanks Blanks value.lexemes (plainForm text) ∧
      tokens (plainForm text) = value.lexemes.map Lexeme.token ∧
      tokens (plainForm text) = tokens plain ∧
      ofText (String.ofList text) = ofText (String.ofList plain) := by
  have reduced := commented.tokens_plainForm
  have plainReduced := (Spelled.commented layout).tokens_plainForm
  refine ⟨commented.layout,reduced,?_,?_⟩
  · rw [reduced,layout.tokens_eq value.isChain_lexemes]
  · rw [ofText,ofText,String.toList_ofList,String.toList_ofList,reduced,plainReduced]

def spelledPlainly (text : List Char)
    (plain : ∀ c ∈ text, 0x20 ≤ c.toNat ∧ c ≠ '"' ∧ c ≠ '\\') : SpelledString :=
  text.pmap (fun c known => .plain c known.1 known.2.1 known.2.2) plain

def includeKey : SpelledString := spelledPlainly ['i','n','c','l','u','d','e'] (by simp)

def bracketText : SpelledString := spelledPlainly ['a',',',']'] (by simp)

/-- An object with a text in it that looks like the end of an array. -/
def bracketValue : Spelled := .object [(includeKey,.array [.scalar (.string bracketText)])]

def bracketLexemes : List Lexeme := [.mark .openObject,.scalar (.string includeKey),.mark .colon,
  .mark .openArray,.scalar (.string bracketText),.mark .comma,.mark .closeArray,.mark .comma,
  .mark .closeObject]

def bracketCommented : List Char := ['{','"','i','n','c','l','u','d','e','"',':','[','"','a',',',']','"',
  ',','/','*','"','*','/',']','/','/',']','\n',',','}','/','/']

theorem bracketCommented_commented : Commented bracketValue bracketCommented := by
  have array : Loose (.array [.scalar (.string bracketText)]) [.mark .openArray,
      .scalar (.string bracketText),.mark .comma,.mark .closeArray] :=
    .array (.cons (.scalar _) .nil) (.comma (by simp))
  have members : List.Forall₂ (fun member value => Loose (Prod.snd member) value)
      [(includeKey,.array [.scalar (.string bracketText)])] [_] := .cons array .nil
  have noBlockEnd : ¬['*','/'] <:+: ['"'] := by decide
  have block : Remarks ['/','*','"','*','/'] := .block noBlockEnd .nil
  have noBreak : '\n' ∉ [']'] := by decide
  have line : Remarks ['/','/',']','\n'] := .line noBreak .nil
  have last : LastRemarks ['/','/'] := .line .nil List.not_mem_nil
  refine ⟨bracketLexemes,.object members rfl (.comma (by simp)),?_⟩
  exact .cons .nil (.cons .nil (.cons .nil (.cons .nil (.cons .nil (.cons .nil (.cons block
    (.cons line (.cons .nil (.nil last)))))))))

theorem ofText_commented_bracket : Commented bracketValue bracketCommented ∧
    ofText (String.ofList bracketCommented) = .ok ⟨false,["a,]"],[]⟩ := by
  have commented := bracketCommented_commented
  obtain ⟨_,reduced,_⟩ := ofText_commented commented (layout_flatMap bracketValue.lexemes)
  refine ⟨commented,?_⟩
  rw [ofText,String.toList_ofList,reduced]
  decide

end SourceAtlas.CompilerOptions
