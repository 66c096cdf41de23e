import Mathlib.Data.List.Basic

/-! Brackets and quotes in the text of a type. A type is whole if it opens and closes its own brackets and
what binds less than brackets after it stands within them. -/
namespace SourceAtlas.Text

/-- What a character does to the one after it. -/
inductive Lead
  | plain
  | escape
  | equals
  | dollar
  deriving DecidableEq, Repr

/-- The brackets and quotes that are open after a part of a text, innermost first. -/
structure Nest where
  opened : List Char
  lead : Lead
  deriving DecidableEq, Repr

def isQuote (c : Char) : Bool := c == '"' || c == '\x27' || c == '\x60'

def isOpening (c : Char) : Bool := c == '(' || c == '[' || c == '{' || c == '<'

/-- What a closing bracket closes, angles apart. -/
def opener? : Char → Option Char
  | ')' => some '('
  | ']' => some '['
  | '}' => some '{'
  | _ => none

namespace Nest

def start : Nest := ⟨[],.plain⟩

/-- A character within quotes. A template can have braces after a dollar sign, with code in them. -/
def stepQuoted (quote : Char) (outer : List Char) (lead : Lead) (c : Char) : Nest :=
  if lead = .escape then ⟨quote :: outer,.plain⟩
  else if c = quote then ⟨outer,.plain⟩
  else if quote = '\x60' ∧ c = '{' ∧ lead = .dollar then ⟨'{' :: quote :: outer,.plain⟩
  else ⟨quote :: outer,if c = '\\' then .escape else if c = '$' then .dollar else .plain⟩

/-- A character outside quotes. The head of an arrow closes nothing, and an angle that is still open at a
closing bracket was no bracket. -/
def stepCode (nest : Nest) (c : Char) : Option Nest :=
  if isQuote c ∨ isOpening c then some ⟨c :: nest.opened,.plain⟩
  else if c = '>' then
    if nest.opened.head? = some '<' ∧ nest.lead ≠ .equals then some ⟨nest.opened.tail,.plain⟩
    else some ⟨nest.opened,.plain⟩
  else match opener? c with
    | none => some ⟨nest.opened,if c = '=' then .equals else .plain⟩
    | some bracket =>
      match nest.opened.dropWhile (· == '<') with
      | [] => none
      | top :: outer => if top = bracket then some ⟨outer,.plain⟩ else none

def step (nest : Nest) (c : Char) : Option Nest :=
  match nest.opened with
  | [] => nest.stepCode c
  | top :: outer => if isQuote top then some (stepQuoted top outer nest.lead c) else nest.stepCode c

/-- What is open after a text, unless it closes what is not open. -/
def scan (nest : Nest) (text : List Char) : Option Nest := text.foldlM step nest

end Nest

/-- A text that opens and closes its own brackets and quotes. -/
def Closed (text : List Char) : Prop := (Nest.start.scan text).map Nest.opened = some []

instance (text : List Char) : Decidable (Closed text) := inferInstanceAs (Decidable (_ = _))

/-- A part of a text after which a bracket or a quote is open. -/
def Encloses (before : List Char) : Prop :=
  ∃ top outer lead, Nest.start.scan before = some ⟨top :: outer,lead⟩

/-- What binds less than brackets after a type. -/
def looseMarks : List (List Char) := [['|'],['&'],['=','>']]

/-- Brackets after such a text apply to all of it. -/
def BindsAsOne (text : List Char) : Prop :=
  ∀ mark ∈ looseMarks, ∀ before after, text = before ++ mark ++ after → Encloses before

structure Whole (text : List Char) : Prop where
  closed : Closed text
  binds : BindsAsOne text

namespace Nest

variable {nest next : Nest} {front back text : List Char} {c : Char}

theorem scan_append (nest : Nest) (front back : List Char) :
    nest.scan (front ++ back) = (nest.scan front).bind fun inner => inner.scan back :=
  List.foldlM_append

theorem scan_cons (nest : Nest) (c : Char) (text : List Char) :
    nest.scan (c :: text) = (nest.step c).bind fun inner => inner.scan text := List.foldlM_cons

/-- A nest with a parenthesis around it. -/
def within (nest : Nest) : Nest := ⟨nest.opened ++ ['('],nest.lead⟩

theorem dropWhile_within {opened outer : List Char} {top : Char}
    (rest : opened.dropWhile (· == '<') = top :: outer) :
    (opened ++ ['(']).dropWhile (· == '<') = top :: (outer ++ ['(']) := by
  induction opened with
  | nil => cases rest
  | cons c opened ih =>
    by_cases angle : c = '<'
    · subst angle
      exact ih rest
    · have other : (c == '<') = false := by simpa using angle
      rw [List.dropWhile_cons_of_neg (by simp [other])] at rest
      rw [List.cons_append,List.dropWhile_cons_of_neg (by simp [other])]
      cases rest
      rfl

theorem head?_within (opened : List Char) :
    (opened ++ ['(']).head? = some '<' ↔ opened.head? = some '<' := by
  cases opened <;> simp

theorem stepCode_within (stepped : nest.stepCode c = some next) :
    nest.within.stepCode c = some next.within := by
  unfold stepCode at stepped ⊢
  split at stepped
  · next opens =>
    cases stepped
    exact if_pos opens
  · next opens =>
    rw [if_neg opens]
    split at stepped
    · next angle =>
      rw [if_pos angle]
      have same := head?_within nest.opened
      split at stepped
      · next closes =>
        cases stepped
        rw [if_pos ⟨same.mpr closes.1,closes.2⟩]
        cases opened : nest.opened with
        | nil => simp [opened] at closes
        | cons top outer => simp [within,opened]
      · next stays =>
        cases stepped
        exact if_neg fun closes => stays ⟨same.mp closes.1,closes.2⟩
    · next angle =>
      rw [if_neg angle]
      split at stepped
      · cases stepped
        rfl
      · split at stepped
        · cases stepped
        · next top outer rest =>
          rw [within,dropWhile_within rest]
          split at stepped
          · next matching =>
            cases stepped
            exact if_pos matching
          · cases stepped

theorem stepQuoted_within (quote : Char) (outer : List Char) (lead : Lead) (c : Char) :
    stepQuoted quote (outer ++ ['(']) lead c = (stepQuoted quote outer lead c).within := by
  unfold stepQuoted
  split
  · rfl
  · split
    · rfl
    · split <;> rfl

/-- A step says nothing about what is open around it. -/
theorem step_within (stepped : nest.step c = some next) : nest.within.step c = some next.within := by
  obtain ⟨opened,lead⟩ := nest
  cases opened with
  | nil => exact stepCode_within stepped
  | cons top outer =>
    have around : (⟨top :: outer,lead⟩ : Nest).within = ⟨top :: (outer ++ ['(']),lead⟩ := rfl
    rw [around]
    unfold step at stepped ⊢
    dsimp only at stepped ⊢
    split at stepped
    · next quoted =>
      cases stepped
      rw [if_pos quoted,stepQuoted_within]
    · next code =>
      rw [if_neg code]
      exact stepCode_within stepped

theorem scan_within (scanned : nest.scan text = some next) : nest.within.scan text = some next.within := by
  induction text generalizing nest with
  | nil =>
    cases scanned
    rfl
  | cons c text ih =>
    rw [scan_cons] at scanned ⊢
    obtain ⟨inner,stepped,later⟩ := Option.bind_eq_some_iff.mp scanned
    rw [step_within stepped]
    exact ih later

/-- Only the head of an arrow looks back, when nothing is open. -/
theorem step_lead (other : c ≠ '>') (lead : Lead) : (⟨[],lead⟩ : Nest).step c = start.step c := by
  change stepCode _ c = stepCode _ c
  rw [stepCode,stepCode,if_neg other,if_neg other]
  rfl

end Nest

-- Closed texts put together

variable {front back text : List Char}

theorem Closed.scan (closed : Closed text) : ∃ lead, Nest.start.scan text = some ⟨[],lead⟩ := by
  obtain ⟨nest,scanned,none⟩ := Option.map_eq_some_iff.mp closed
  obtain ⟨opened,lead⟩ := nest
  cases none
  exact ⟨lead,scanned⟩

/-- A closed text can stand before one that does not end an arrow. -/
theorem Closed.append (first : Closed front) (second : Closed back) (apart : back.head? ≠ some '>') :
    Closed (front ++ back) := by
  obtain ⟨lead,scanned⟩ := first.scan
  rw [Closed,Nest.scan_append,scanned]
  cases back with
  | nil => rfl
  | cons c back =>
    have other : c ≠ '>' := fun same => apart (congrArg some same)
    have plain : (Nest.mk [] lead).scan (c :: back) = Nest.start.scan (c :: back) := by
      rw [Nest.scan_cons,Nest.scan_cons,Nest.step_lead other]
    exact (congrArg (Option.map Nest.opened) plain).trans second

theorem Closed.parenthesised (closed : Closed text) : Closed ('(' :: text ++ [')']) := by
  obtain ⟨lead,scanned⟩ := closed.scan
  have inside : Nest.start.scan ('(' :: text) = some ⟨['('],lead⟩ := Nest.scan_within scanned
  rw [Closed,Nest.scan_append,inside]
  cases lead <;> rfl

theorem Closed.brackets (closed : Closed text) : Closed (text ++ ['[',']']) :=
  closed.append (by decide) (by decide)

theorem closed_intercalate {pieces : List (List Char)} (each : ∀ piece ∈ pieces, Closed piece) :
    Closed (" | ".toList.intercalate pieces) := by
  induction pieces with
  | nil => rfl
  | cons piece rest ih =>
    obtain ⟨here,later⟩ := List.forall_mem_cons.mp each
    by_cases last : rest = []
    · subst last
      rw [List.intercalate_singleton]
      exact here
    · have bar : Nest.start.scan " | ".toList = some .start := by decide
      have after : Closed (" | ".toList ++ " | ".toList.intercalate rest) := by
        rw [Closed,Nest.scan_append,bar]
        exact ih later
      rw [List.intercalate_cons_of_ne_nil last,List.append_assoc]
      exact here.append after (by simp)

-- Texts that bind as one

theorem bindsAsOne_of_unmarked (unmarked : (text.all fun c => c != '|' && c != '&' && c != '>') = true) :
    BindsAsOne text := by
  have each : ∀ c ∈ text, c ≠ '|' ∧ c ≠ '&' ∧ c ≠ '>' := by simpa [and_assoc] using unmarked
  rintro mark listed before after rfl
  have inside (c : Char) (member : c ∈ mark) := each c (by simp [member])
  have known : mark = ['|'] ∨ mark = ['&'] ∨ mark = ['=','>'] := by simpa [looseMarks] using listed
  rcases known with rfl | rfl | rfl
  · exact absurd rfl (inside '|' (by simp)).1
  · exact absurd rfl (inside '&' (by simp)).2.1
  · exact absurd rfl (inside '>' (by simp)).2.2

theorem encloses_of_prefix (closed : Closed text) (within : front <+: text) : Encloses ('(' :: front) := by
  obtain ⟨back,rfl⟩ := within
  obtain ⟨lead,scanned⟩ := closed.scan
  rw [Nest.scan_append] at scanned
  obtain ⟨nest,here,_⟩ := Option.bind_eq_some_iff.mp scanned
  have around : Nest.start.scan ('(' :: front) = some nest.within := Nest.scan_within here
  obtain ⟨opened,inner⟩ := nest
  cases opened with
  | nil => exact ⟨'(',[],inner,around⟩
  | cons top outer => exact ⟨top,outer ++ ['('],inner,around⟩

theorem mark_ends {mark : List Char} (listed : mark ∈ looseMarks) :
    ∃ front last, mark = front ++ [last] ∧ (last = '|' ∨ last = '&' ∨ last = '>') := by
  have known : mark = ['|'] ∨ mark = ['&'] ∨ mark = ['=','>'] := by simpa [looseMarks] using listed
  rcases known with rfl | rfl | rfl
  · exact ⟨[],'|',rfl,.inl rfl⟩
  · exact ⟨[],'&',rfl,.inr (.inl rfl)⟩
  · exact ⟨['='],'>',rfl,.inr (.inr rfl)⟩

theorem mark_starts {mark rest : List Char} (listed : mark ∈ looseMarks) : (mark ++ rest).head? ≠ some '(' := by
  have known : mark = ['|'] ∨ mark = ['&'] ∨ mark = ['=','>'] := by simpa [looseMarks] using listed
  rcases known with rfl | rfl | rfl <;> simp

/-- A mark before brackets is not part of them. -/
theorem marked_before {mark before after brackets : List Char} (listed : mark ∈ looseMarks)
    (unmarked : ∀ c ∈ brackets, c ≠ '|' ∧ c ≠ '&' ∧ c ≠ '>')
    (split : text ++ brackets = before ++ mark ++ after) : ∃ rest, text = before ++ mark ++ rest := by
  rcases List.append_eq_append_iff.mp split with ⟨shared,marked,closing⟩ | ⟨rest,here,_⟩
  · obtain ⟨front,last,rfl,known⟩ := mark_ends listed
    rcases List.eq_nil_or_concat shared with rfl | ⟨inner,final,rfl⟩
    · exact ⟨[],by simpa using marked.symm⟩
    · rw [List.concat_eq_append,← List.append_assoc,← List.append_assoc] at marked
      obtain ⟨_,same⟩ := List.append_inj' marked rfl
      cases same
      obtain ⟨bar,amp,head⟩ := unmarked last (by simp [closing])
      rcases known with same | same | same <;> contradiction
  · exact ⟨rest,here⟩

theorem BindsAsOne.brackets (binds : BindsAsOne text) : BindsAsOne (text ++ ['[',']']) := by
  intro mark listed before after split
  obtain ⟨rest,here⟩ := marked_before listed (by simp) split
  exact binds mark listed before rest here

theorem Closed.bindsAsOne (closed : Closed text) : BindsAsOne ('(' :: text ++ [')']) := by
  intro mark listed before after split
  obtain ⟨rest,here⟩ := marked_before listed (by simp) split
  cases before with
  | nil => exact absurd (congrArg List.head? here).symm (mark_starts listed)
  | cons first front =>
    obtain ⟨rfl,inside⟩ := List.cons.inj here
    exact encloses_of_prefix closed ⟨mark ++ rest,(inside.trans (List.append_assoc front mark rest)).symm⟩

theorem Whole.brackets (whole : Whole text) : Whole (text ++ ['[',']']) :=
  ⟨whole.closed.brackets,whole.binds.brackets⟩

end SourceAtlas.Text
