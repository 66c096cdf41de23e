import SourceAtlas.Text.Parts

/-! Glob patterns: tokens, how a pattern text is read, and why it may be refused. -/
namespace SourceAtlas.Glob

/-- `recursivePrefix` spans any leading directories, `recursiveSuffix` all that lies below a
directory, `recursiveMiddle` any directories between two separators. A character class lists ranges,
and `alternatives` lists branches. -/
inductive Token
  | literal (c : Char)
  | anyOne
  | anyRun
  | recursivePrefix
  | recursiveSuffix
  | recursiveMiddle
  | characterClass (negated : Bool) (ranges : List (Char × Char))
  | alternatives (branches : List (List Token))
  deriving Repr

inductive Refusal
  | unclosedClass
  | invalidRange (first last : Char)
  | unopenedAlternatives
  | unclosedAlternatives
  | danglingEscape
  deriving DecidableEq, Repr

def Refusal.reason : Refusal → String
  | unclosedClass => "unclosed character class; missing ']'"
  | invalidRange first last => "invalid range; '" ++ first.toString ++ "' > '" ++ last.toString ++ "'"
  | unopenedAlternatives =>
    "unopened alternate group; missing '\x7b' (maybe escape '\x7d' with '[\x7d]'?)"
  | unclosedAlternatives =>
    "unclosed alternate group; missing '\x7d' (maybe escape '\x7b' with '[\x7b]'?)"
  | danglingEscape => "dangling '\\'"

structure Fault where
  pattern : String
  refusal : Refusal
  deriving DecidableEq, Repr

def Fault.message (fault : Fault) : String :=
  "error parsing glob '" ++ fault.pattern ++ "': " ++ fault.refusal.reason

/-- A class being read: the ranges so far, latest first, whether the next character ends the latest
one, and whether any character of the class is read. -/
structure ClassDraft where
  negated : Bool
  ranges : List (Char × Char)
  inRange : Bool
  started : Bool

namespace ClassDraft

def empty (negated : Bool) : ClassDraft := ⟨negated, [], false, false⟩

def single (draft : ClassDraft) (c : Char) : ClassDraft :=
  { draft with ranges := (c, c) :: draft.ranges, started := true }

/-- Sets the end of the latest range. -/
def close (draft : ClassDraft) (last : Char) : Except Refusal ClassDraft :=
  match draft.ranges with
  | [] => .ok (draft.single last)
  | (first, _) :: ranges =>
    if last < first then .error (.invalidRange first last)
    else .ok { draft with ranges := (first, last) :: ranges, inRange := false }

/-- Adds a character of the class. A bracket or a dash right at the start stands for itself. -/
def add (draft : ClassDraft) (c : Char) : Except Refusal ClassDraft :=
  if draft.inRange then draft.close c
  else if c = '-' ∧ draft.started then .ok { draft with inRange := true }
  else .ok (draft.single c)

/-- The finished class. A dash that was waiting for its end stands for itself. -/
def token (draft : ClassDraft) : Token :=
  .characterClass draft.negated
    (if draft.inRange then ('-', '-') :: draft.ranges else draft.ranges).reverse

end ClassDraft

/-- A pattern being read. `tokens` is the branch being read and `branches` are the finished branches
of the innermost open group, all latest first; `outer` holds, for each open group, the branch in which
it stands and the finished branches beside that one. `previous` is the character read last. -/
structure Draft where
  tokens : List Token
  branches : List (List Token)
  outer : List (List Token × List (List Token))
  previous : Option Char

namespace Draft

def empty : Draft := ⟨[], [], [], none⟩

def push (draft : Draft) (token : Token) : Draft := { draft with tokens := token :: draft.tokens }

def seen (draft : Draft) (c : Char) : Draft := { draft with previous := some c }

def inGroup (draft : Draft) : Bool := !draft.outer.isEmpty

def openGroup (draft : Draft) : Draft :=
  { draft with tokens := [], branches := [], outer := (draft.tokens, draft.branches) :: draft.outer }

def nextBranch (draft : Draft) : Draft :=
  { draft with tokens := [], branches := draft.tokens.reverse :: draft.branches }

def closeGroup (draft : Draft) : Except Refusal Draft :=
  match draft.outer with
  | [] => .error .unopenedAlternatives
  | (tokens, branches) :: outer =>
    let group := .alternatives (draft.tokens.reverse :: draft.branches).reverse
    .ok { draft with tokens := group :: tokens, branches, outer }

def finish (draft : Draft) : Except Refusal (List Token) :=
  if draft.inGroup then .error .unclosedAlternatives else .ok draft.tokens.reverse

/-- Two stars that do not fill a path segment are two runs. -/
def twoRuns (draft : Draft) : Draft := ((draft.push .anyRun).push .anyRun).seen '*'

/-- Puts two stars that fill a segment after what came before: the separator before them belongs to
them, and after other recursive tokens at an end of the pattern they add nothing. -/
def recursive (draft : Draft) (token : Token) : Draft :=
  match draft.tokens with
  | .recursivePrefix :: _ => draft
  | .recursiveSuffix :: _ => draft
  | _ :: tokens => { draft with tokens := token :: tokens }
  | [] => draft

/-- Whether two stars right after the character read last can fill a segment. -/
def atSegmentStart (draft : Draft) : Bool :=
  match draft.previous with
  | some '/' => true
  | some ',' => draft.inGroup
  | some '\x7b' => draft.inGroup
  | _ => false

/-- Reads two stars, given the character after them. The answer says too whether that character, a
separator, belongs to them. -/
def twoStars (draft : Draft) (next : Option Char) : Draft × Bool :=
  if draft.tokens = [] then
    match next with
    | none => ((draft.push .recursivePrefix).seen '*', false)
    | some '/' => ((draft.push .recursivePrefix).seen '/', true)
    | some _ => (draft.twoRuns, false)
  else if draft.atSegmentStart then
    match next with
    | none => ((draft.recursive .recursiveSuffix).seen '*', false)
    | some '/' => ((draft.recursive .recursiveMiddle).seen '/', true)
    | some c =>
      if draft.inGroup ∧ (c = ',' ∨ c = '\x7d') then
        ((draft.recursive .recursiveSuffix).seen '*', false)
      else (draft.twoRuns, false)
  else (draft.twoRuns, false)

end Draft

inductive Mode
  | plain
  | escaped
  | inClass (draft : ClassDraft)

def read (draft : Draft) : Mode → List Char → Except Refusal (List Token)
  | .plain, [] => draft.finish
  | .escaped, [] => .error .danglingEscape
  | .inClass _, [] => .error .unclosedClass
  | .escaped, c :: rest => read ((draft.push (.literal c)).seen c) .plain rest
  | .inClass cls, c :: rest =>
    if c = ']' ∧ cls.started then read ((draft.push cls.token).seen c) .plain rest
    else
      match cls.add c with
      | .error refusal => .error refusal
      | .ok cls => read draft (.inClass cls) rest
  | .plain, '*' :: '*' :: rest =>
    match draft.twoStars rest.head?, rest with
    | (draft, true), _ :: rest => read draft .plain rest
    | (draft, _), rest => read draft .plain rest
  | .plain, '[' :: '!' :: rest => read draft (.inClass (.empty true)) rest
  | .plain, '[' :: '^' :: rest => read draft (.inClass (.empty true)) rest
  | .plain, c :: rest =>
    match c with
    | '?' => read ((draft.push .anyOne).seen c) .plain rest
    | '*' => read ((draft.push .anyRun).seen c) .plain rest
    | '[' => read draft (.inClass (.empty false)) rest
    | '\x7b' => read (draft.openGroup.seen c) .plain rest
    | '\x7d' =>
      match draft.closeGroup with
      | .error refusal => .error refusal
      | .ok draft => read (draft.seen c) .plain rest
    | ',' =>
      read ((if draft.inGroup then draft.nextBranch else draft.push (.literal c)).seen c) .plain rest
    | '\\' => read draft .escaped rest
    | c => read ((draft.push (.literal c)).seen c) .plain rest

/-- A pattern that was accepted. `separated` says that a run or a single character stays within a
path segment. -/
structure Pattern where
  separated : Bool
  tokens : List Token
  deriving Repr

def Pattern.parse (separated : Bool) (text : String) : Except Fault Pattern :=
  match read .empty .plain text.toList with
  | .ok tokens => .ok ⟨separated, tokens⟩
  | .error refusal => .error ⟨text, refusal⟩

end SourceAtlas.Glob
