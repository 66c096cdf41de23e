import SourceAtlas.Proofs.FirstFault
import SourceAtlas.Proofs.JsonRecognition
import SourceAtlas.Proofs.SpareCommas

/-! Every text that is read is one of a value, up to accidents. What the two passes leave is a text of
lexemes, so both are followed back from their results. -/
namespace SourceAtlas.Json

variable {c : Char} {text : List Char} {lexemes : List Lexeme} {allowed : Accident → Prop}

-- Replaced comments

theorem exists_block (text : List Char) : ¬['*','/'] <:+: text ∨
    ∃ comment rest, text = comment ++ '*' :: '/' :: rest ∧ ¬['*','/'] <:+: comment := by
  induction text with
  | nil => exact .inl (by decide)
  | cons c text ih =>
    by_cases here : ['*','/'] <+: c :: text
    · obtain ⟨rest,same⟩ := here
      exact .inr ⟨[],rest,same.symm,by decide⟩
    · rcases ih with endless | ⟨comment,rest,rfl,closed⟩
      · refine .inl fun found => ?_
        rcases List.infix_cons_iff.mp found with first | later
        · exact here first
        · exact endless later
      · refine .inr ⟨c :: comment,rest,rfl,fun found => ?_⟩
        rcases List.infix_cons_iff.mp found with first | later
        · exact here (first.trans (List.prefix_append _ _))
        · exact closed later

/-- How a text outside of strings starts. -/
inductive Start : List Char → Prop
  | nil : Start []
  | line {comment rest : List Char} (oneLine : '\n' ∉ comment) :
    Start ('/' :: '/' :: (comment ++ '\n' :: rest))
  | lastLine {comment : List Char} (oneLine : '\n' ∉ comment) : Start ('/' :: '/' :: comment)
  | block {comment rest : List Char} (closed : ¬['*','/'] <:+: comment) :
    Start ('/' :: '*' :: (comment ++ '*' :: '/' :: rest))
  | endless {comment : List Char} (endless : ¬['*','/'] <:+: comment) : Start ('/' :: '*' :: comment)
  | string (rest : List Char) : Start ('"' :: rest)
  | character {c : Char} {rest : List Char} (noQuote : c ≠ '"')
    (kept : ∀ filler, replaceComments filler .plain (c :: rest) = c :: replaceComments filler .plain rest) :
    Start (c :: rest)

theorem start (text : List Char) : Start text := by
  cases text with
  | nil => exact .nil
  | cons c text =>
    by_cases slash : c = '/'
    · subst slash
      cases text with
      | nil => exact .character (by decide) fun filler => by simp [replaceComments]
      | cons d text =>
        by_cases line : d = '/'
        · subst line
          by_cases broken : '\n' ∈ text
          · obtain ⟨comment,rest,rfl,oneLine⟩ := List.eq_append_cons_of_mem broken
            exact .line oneLine
          · exact .lastLine broken
        · by_cases block : d = '*'
          · subst block
            rcases exists_block text with endless | ⟨comment,rest,rfl,closed⟩
            · exact .endless endless
            · exact .block closed
          · refine .character (by decide) fun filler => ?_
            exact replaceComments.eq_5 filler '/' (d :: text) (by decide)
              (fun _ _ same => line (List.cons.inj same).1) fun _ _ same => block (List.cons.inj same).1
    · by_cases quote : c = '"'
      · exact quote ▸ .string text
      · exact .character quote fun filler => replaceComments_copies quote slash text

theorem eq_nil_of_solid {blanks rest out : List Char} (blank : Blanks blanks) (solid : isSpace c = false)
    (same : blanks ++ rest = c :: out) : blanks = [] := by
  cases blanks with
  | nil => rfl
  | cons d blanks =>
    cases same
    exact absurd (solid.symm.trans (List.forall_mem_cons.mp blank).1) Bool.false_ne_true

theorem InWord.isSpace_eq (word : InWord c) : isSpace c = false :=
  Bool.eq_false_iff.mpr fun space =>
    Bool.false_ne_true (word.solid.symm.trans (isBlank_of_isSpace space))

variable {filler : List Char}

theorem exists_of_replaceComments (blank : Blanks filler) (word : InWord c) {out : List Char}
    (same : replaceComments filler .plain text = c :: out) : ∃ between rest,
      text = between ++ c :: rest ∧ Blocks between ∧ replaceComments filler .plain rest = out ∧
        (filler ≠ [] → between = []) := by
  have solid := word.isSpace_eq
  induction length : text.length using Nat.strongRecOn generalizing text with
  | ind size ih =>
    cases start text with
    | nil =>
      rw [replaceComments] at same
      cases same
    | line oneLine =>
      rw [replaceComments,replaceComments_line oneLine,replaceComments,← List.singleton_append,
        ← List.append_assoc] at same
      have broken : Blanks (filler ++ ['\n']) :=
        List.forall_mem_append.mpr ⟨blank,List.forall_mem_singleton.mpr rfl⟩
      exact absurd (eq_nil_of_solid broken solid same) (by simp)
    | lastLine oneLine =>
      rw [replaceComments,replaceComments_lastLine oneLine] at same
      cases eq_nil_of_solid blank solid same
      cases same
    | endless endless =>
      rw [replaceComments,replaceComments_endless endless] at same
      cases eq_nil_of_solid blank solid same
      cases same
    | @block comment rest closed =>
      rw [replaceComments,replaceComments_block closed] at same
      cases eq_nil_of_solid blank solid same
      obtain ⟨between,after,rfl,blocks,known,_⟩ := ih rest.length (by rw [← length]; simp; omega) same rfl
      refine ⟨_,after,?_,.block closed blocks,known,fun some => absurd rfl some⟩
      simp
    | string rest =>
      rw [replaceComments] at same
      cases same
      exact absurd rfl word.bare.1
    | @character d rest _ kept =>
      cases (kept filler).symm.trans same
      exact ⟨[],rest,rfl,.nil,rfl,fun _ => rfl⟩

/-- The letters of a word after its first one, as they stood with comments between them. -/
theorem exists_torn (blank : Blanks filler) {letters out : List Char} (word : ∀ d ∈ letters, InWord d)
    (c : Char) (same : replaceComments filler .plain text = letters ++ out) : ∃ torn rest,
      text = torn ++ rest ∧ Torn (c :: letters) (c :: torn) ∧ replaceComments filler .plain rest = out ∧
        (filler ≠ [] → torn = letters) := by
  induction letters generalizing c text with
  | nil => exact ⟨[],text,rfl,.last c,same,fun _ => rfl⟩
  | cons d letters ih =>
    obtain ⟨here,others⟩ := List.forall_mem_cons.mp word
    obtain ⟨between,rest,rfl,blocks,left,untorn⟩ := exists_of_replaceComments blank here same
    obtain ⟨torn,rest,rfl,later,known,plain⟩ := ih others d left
    refine ⟨between ++ d :: torn,rest,by simp,.cons blocks later,known,fun some => ?_⟩
    rw [untorn some,plain some,List.nil_append]

theorem exists_lexeme_of_replaceComments (blank : Blanks filler) (tears : filler = [] → allowed .tornScalar)
    {lexeme : Lexeme} {later out : List Char} (head : Head c later lexeme)
    (spelled : lexeme.text = c :: later) (starts : c ≠ '"' →
      replaceComments filler .plain (c :: text) = c :: replaceComments filler .plain text)
    (same : replaceComments filler .plain (c :: text) = c :: (later ++ out)) :
    ∃ spelling rest, text = spelling ++ rest ∧ SpelledAs allowed lexeme (c :: spelling) ∧
      replaceComments filler .plain rest = out := by
  cases head with
  | string pieces =>
    rw [replaceComments,List.append_assoc] at same
    obtain ⟨rest,rfl,known⟩ :=
      (keepsStrings_replaceComments filler).exists_body pieces.inside (List.cons.inj same).2
    exact ⟨pieces.body ++ ['"'],rest,by simp,.whole _,known⟩
  | mark sign =>
    have noQuote : sign.char ≠ '"' := by cases sign <;> decide
    exact ⟨[],text,rfl,.whole (.mark sign),(List.cons.inj ((starts noQuote).symm.trans same)).2⟩
  | @word value _ _ unquoted written =>
    obtain ⟨here,others⟩ := Head.inWord unquoted written
    have copied := (starts here.bare.1).symm.trans same
    obtain ⟨torn,rest,rfl,pieces,known,plain⟩ := exists_torn blank others c (List.cons.inj copied).2
    refine ⟨torn,rest,rfl,?_,known⟩
    by_cases nothing : filler = []
    · exact .torn (tears nothing) unquoted (written ▸ pieces)
    · rw [plain nothing,← spelled]
      exact .whole _

theorem arranged_of_first (blank : Blanks filler) (tears : filler = [] → allowed .tornScalar)
    (starts : c ≠ '"' →
      replaceComments filler .plain (c :: text) = c :: replaceComments filler .plain text)
    (solid : isSpace c = false)
    (layout : Layout Blanks Blanks lexemes (replaceComments filler .plain (c :: text)))
    (later : ∀ {rest lexemes}, rest.length ≤ text.length →
      Layout Blanks Blanks lexemes (replaceComments filler .plain rest) → Arranged allowed lexemes rest) :
    Arranged allowed lexemes (c :: text) := by
  obtain ⟨out,written⟩ : ∃ out, replaceComments filler .plain (c :: text) = c :: out := by
    by_cases quote : c = '"'
    · subst quote
      exact ⟨_,by rw [replaceComments]⟩
    · exact ⟨_,starts quote⟩
  rw [written] at layout
  obtain ⟨lexeme,letters,left,others,rfl,spelled,head,rfl,rest⟩ := layout.exists_first solid
  obtain ⟨spelling,after,rfl,known,rfl⟩ :=
    exists_lexeme_of_replaceComments blank tears head spelled starts written
  exact .cons .nil known (later (by simp) rest)

/-- If a text of lexemes is left when comments are replaced by blanks, they were arranged in the text. -/
theorem arranged_of_replaceComments (blank : Blanks filler) (tears : filler = [] → allowed .tornScalar)
    (opens : allowed .openComment)
    (layout : Layout Blanks Blanks lexemes (replaceComments filler .plain text)) :
    Arranged allowed lexemes text := by
  induction length : text.length using Nat.strongRecOn generalizing text lexemes with
  | ind size ih =>
    cases start text with
    | nil =>
      rw [replaceComments] at layout
      exact layout.eq_nil ▸ .nil (.remarks (.closed .nil))
    | @line comment rest oneLine =>
      rw [replaceComments,replaceComments_line oneLine,replaceComments] at layout
      have plain := (layout.of_blanks blank).of_space rfl
      have later := ih rest.length (by rw [← length]; simp; omega) plain rfl
      simpa using later.append (.line oneLine .nil)
    | lastLine oneLine =>
      rw [replaceComments,replaceComments_lastLine oneLine] at layout
      exact (layout.of_blanks blank).eq_nil ▸ .nil (.remarks (.line .nil oneLine))
    | @block comment rest closed =>
      rw [replaceComments,replaceComments_block closed] at layout
      have later := ih rest.length (by rw [← length]; simp; omega) (layout.of_blanks blank) rfl
      simpa using later.append (.block closed .nil)
    | endless endless =>
      rw [replaceComments,replaceComments_endless endless] at layout
      exact (layout.of_blanks blank).eq_nil ▸ .nil (.openComment opens .nil endless)
    | string rest =>
      refine arranged_of_first blank tears (fun other => absurd rfl other) rfl layout fun short plain => ?_
      exact ih _ (by rw [← length]; exact Nat.lt_succ_of_le short) plain rfl
    | @character c rest noQuote kept =>
      by_cases space : isSpace c = true
      · rw [kept] at layout
        have later := ih rest.length (by rw [← length]; simp) (layout.of_space space) rfl
        exact later.append (.blank space .nil)
      · refine arranged_of_first blank tears (fun _ => kept filler) (Bool.eq_false_iff.mpr space) layout
          fun short plain => ?_
        exact ih _ (by rw [← length]; exact Nat.lt_succ_of_le short) plain rfl

-- Whole documents

theorem Document.read_eq_ok_iff {α : Type} {document : Document} {read : Draft → Result α} {value : α} :
    document.read read = .ok value ↔ read document.value = .ok value ∧ document.trailing = false := by
  rw [Document.read,bind_eq_ok_iff]
  cases trailing : document.trailing <;> simp [pure,Except.pure,bind,Except.bind,throw,throwThe,
    MonadExceptOf.throw]

theorem eq_none_of_checkEnding {ending : Option Stop} {result : Unit}
    (checked : checkEnding ending = .ok result) : ending = none := by
  cases ending with
  | none => rfl
  | some stop => cases checked

theorem eq_none_of_fillItems {ρ : Type} {record filled : ρ} {ending : Option Stop} {slots : List (Slot ρ)}
    {items : List Draft} (read : Draft.fillItems record ending slots items = .ok filled) : ending = none := by
  induction slots generalizing record items with
  | nil =>
    cases items with
    | nil =>
      obtain ⟨_,checked,_⟩ := bind_eq_ok_iff.mp read
      exact eq_none_of_checkEnding checked
    | cons => cases read
  | cons slot slots ih =>
    cases items with
    | nil =>
      obtain ⟨_,checked,_⟩ := bind_eq_ok_iff.mp read
      exact eq_none_of_checkEnding checked
    | cons item items =>
      obtain ⟨_,_,later⟩ := bind_eq_ok_iff.mp read
      exact ih later

theorem isWhole_of_asRecord {ρ : Type} {slots : List (Slot ρ)} {blank record : ρ} {draft : Draft}
    (read : Draft.asRecord slots blank draft = .ok record) : draft.IsWhole := by
  cases draft with
  | object members ending =>
    obtain ⟨_,_,later⟩ := bind_eq_ok_iff.mp read
    obtain ⟨_,checked,_⟩ := bind_eq_ok_iff.mp later
    exact eq_none_of_checkEnding checked
  | array items ending => exact eq_none_of_fillItems read
  | _ => cases read

theorem Layout.ofTokens_eq {value : Spelled} (layout : Layout Blanks Blanks value.lexemes text) :
    Document.ofTokens (tokens text) = ⟨value.draft,false⟩ := by
  have read := Document.ofText_layout layout
  rwa [Document.ofText,String.toList_ofList] at read

/-- A text is read, once its comments are replaced by blanks and its spare commas are dropped, if it is that
of a value up to accidents. -/
theorem read_eq_ok_iff_lenient {α : Type} {read : Draft → Result α} {result : α}
    (needsWhole : ∀ draft, read draft = .ok result → draft.IsWhole) (blank : Blanks filler)
    (text : List Char) :
    (Document.ofTokens (tokens (dropTrailingCommas false (replaceComments filler .plain text)))).read read =
      .ok result ↔ ∃ value, Lenient (fun accident => accident = .tornScalar → filler = []) value text ∧
        read value.draft = .ok result := by
  constructor
  · intro accepted
    obtain ⟨reads,ended⟩ := Document.read_eq_ok_iff.mp accepted
    obtain ⟨value,layout⟩ := exists_spelled (congrArg (Document.mk _) ended) (needsWhole _ reads)
    obtain ⟨loose,same,plain⟩ := exists_loose layout
    rw [layout.ofTokens_eq] at reads
    refine ⟨value,⟨loose,written_of_strict nofun same,?_⟩,reads⟩
    exact arranged_of_replaceComments blank (fun nothing _ => nothing) nofun plain
  · rintro ⟨value,lenient,reads⟩
    rw [(lenient.layout blank fun known => known rfl).ofTokens_eq]
    exact Document.read_eq_ok_iff.mpr ⟨reads,rfl⟩

-- Comments as spaces

def spaceComments : List Char → List Char := replaceComments [' '] .plain

theorem exists_of_spaceComments (solid : c ≠ ' ') {out : List Char}
    (same : spaceComments text = c :: out) : ∃ rest, text = c :: rest := by
  rw [spaceComments] at same
  cases start text with
  | nil | line oneLine | lastLine oneLine | block closed | endless endless =>
    rw [replaceComments] at same
    cases same <;> exact absurd rfl solid
  | string rest =>
    rw [replaceComments] at same
    cases same
    exact ⟨rest,rfl⟩
  | character _ kept =>
    cases (kept [' ']).symm.trans same
    exact ⟨_,rfl⟩

/-- Where a text without comments goes on after what was written for a region. -/
def Region.after : Region → Region
  | .text => .text
  | _ => .plain

theorem replaceComments_replaced (region : Region) (text : List Char) :
    replaceComments [] region.after (replaceComments [' '] region text) =
      replaceComments [' '] region text := by
  fun_induction replaceComments [' '] region text with
  | case5 c rest noQuote noLine noBlock ih =>
    -- A slash that starts no comment has no slash or star after it, also once comments are spaces.
    have left : replaceComments [] .plain (c :: spaceComments rest) =
        c :: replaceComments [] .plain (spaceComments rest) := by
      refine replaceComments.eq_5 [] c _ noQuote (fun _ slash same => ?_) fun _ slash same => ?_
      · obtain ⟨later,known⟩ := exists_of_spaceComments (by decide) same
        exact noLine later slash known
      · obtain ⟨later,known⟩ := exists_of_spaceComments (by decide) same
        exact noBlock later slash known
    exact left.trans (congrArg (c :: ·) ih)
  | case8 c rest noPair noQuote ih =>
    by_cases escape : c = '\\'
    · cases rest with
      | nil => subst escape; rfl
      | cons d rest => exact absurd rfl (noPair d rest escape)
    · exact (followsStrings_replaceComments.within c noQuote escape _).trans (congrArg (c :: ·) ih)
  | _ => simp_all [Region.after,replaceComments]

theorem plainForm_spaceComments (text : List Char) :
    plainForm (spaceComments text) = dropTrailingCommas false (replaceComments [' '] .plain text) := by
  rw [plainForm,← replaceComments_nil]
  exact congrArg _ (replaceComments_replaced .plain text)

theorem plainForm_eq (text : List Char) :
    plainForm text = dropTrailingCommas false (replaceComments [] .plain text) := by
  rw [plainForm,replaceComments_nil]

end SourceAtlas.Json

namespace SourceAtlas.CompilerOptions

open Json

variable {text : List Char} {value : Spelled}

theorem ofText_spaced (commented : Commented value text) :
    ofText (String.ofList (spaceComments text)) = ofText (String.ofList text) := by
  have space : Blanks [' '] := List.forall_mem_singleton.mpr rfl
  have lenient := commented_iff_lenient.mp commented
  have spaced := lenient.layout space False.elim
  have plain := lenient.layout Blanks.nil False.elim
  rw [← plainForm_spaceComments] at spaced
  rw [← plainForm_eq] at plain
  rw [ofText,ofText,String.toList_ofList,String.toList_ofList,spaced.ofTokens_eq,plain.ofTokens_eq]

/-- Reading accepts the commented forms of values and, beyond them, texts with accidents of three kinds. With
spaces for its comments a text is read alike if it is a commented form; else it is accepted only if no word
or numeral is torn. -/
theorem ofText_lenient (text : List Char) (options : CompilerOptions) :
    (ofText (String.ofList text) = .ok options ↔
      ∃ value, Lenient (fun _ => True) value text ∧ ofDraft value.draft = .ok options) ∧
    (ofText (String.ofList (spaceComments text)) = .ok options ↔
      ∃ value, Lenient (· ≠ .tornScalar) value text ∧ ofDraft value.draft = .ok options) ∧
    ∀ value, (Commented value text ↔ Lenient (fun _ => False) value text) ∧
      (Commented value text →
        ofText (String.ofList (spaceComments text)) = ofText (String.ofList text)) := by
  have needsWhole (draft : Draft) (read : ofDraft draft = .ok options) : draft.IsWhole :=
    isWhole_of_asRecord read
  refine ⟨?_,?_,fun value => ⟨commented_iff_lenient,ofText_spaced⟩⟩
  · have accepted := read_eq_ok_iff_lenient needsWhole Blanks.nil text
    rw [ofText,String.toList_ofList,plainForm_eq,accepted]
    simp
  · have space : Blanks [' '] := List.forall_mem_singleton.mpr rfl
    have accepted := read_eq_ok_iff_lenient needsWhole space text
    rw [ofText,String.toList_ofList,plainForm_spaceComments,accepted]
    simp

/-- A word with a comment inside. -/
def tornText : List Char := ['{','"','c','o','m','p','i','l','e','r','O','p','t','i','o','n','s','"',':','{',
  '"','a','l','l','o','w','J','s','"',':','t','r','/','*','*','/','u','e','}','}']

theorem ofText_torn : ofText (String.ofList tornText) = .ok ⟨true,[],[]⟩ ∧
    ofText (String.ofList (spaceComments tornText)) = .error .malformed ∧
    ∀ value, ¬Commented value tornText := by
  have read : ofText (String.ofList tornText) = .ok ⟨true,[],[]⟩ := by cbv
  have spaced : ofText (String.ofList (spaceComments tornText)) = .error .malformed := by cbv
  refine ⟨read,spaced,fun value commented => ?_⟩
  cases spaced.symm.trans ((ofText_spaced commented).trans read)

end SourceAtlas.CompilerOptions
