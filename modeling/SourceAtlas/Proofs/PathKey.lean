import SourceAtlas.Path
import SourceAtlas.Proofs.Parts

/-! Keys of paths. A key read as a path has the components it was made from, so that different paths
below one root have different keys. -/
namespace SourceAtlas

open Text

namespace Component

/-- A name that a component can have. -/
def IsName (text : String) : Prop := text ≠ "" ∧ text ≠ "." ∧ text ≠ ".." ∧ '/' ∉ text.toList

instance : DecidablePred IsName := fun text =>
  inferInstanceAs (Decidable (text ≠ "" ∧ text ≠ "." ∧ text ≠ ".." ∧ '/' ∉ text.toList))

/-- A component that can stand anywhere in a path. -/
def Inner : Component → Prop
  | root => False
  | here => False
  | up => True
  | name text => IsName text

/-- A list of components that some path has: the root and the single dot stand first only. -/
def Proper : List Component → Prop
  | [] => True
  | first :: rest => (first = root ∨ first = here ∨ first.Inner) ∧ ∀ c ∈ rest, c.Inner

theorem inner_of_ofPart? {part : List Char} {c : Component} (clean : '/' ∉ part)
    (read : ofPart? part = some c) : c.Inner := by
  unfold ofPart? at read
  split at read
  · simp at read
  · next solid =>
    obtain ⟨full,notHere⟩ := not_or.mp solid
    split at read
    · cases Option.some.inj read
      trivial
    · next notUp =>
      cases Option.some.inj read
      have spelled (text : String) (same : String.ofList part = text) : part = text.toList := by
        rw [← same,String.toList_ofList]
      exact ⟨fun same => full (spelled "" same),fun same => notHere (spelled "." same),
        fun same => notUp (spelled ".." same),by rwa [String.toList_ofList]⟩

theorem ofPart?_text {c : Component} (inner : c.Inner) : ofPart? c.text.toList = some c := by
  cases c with
  | root => exact inner.elim
  | here => exact inner.elim
  | up => rfl
  | name text =>
    obtain ⟨full,notHere,notUp,_⟩ := inner
    have differs {other : String} (different : text ≠ other) : text.toList ≠ other.toList :=
      fun same => different (String.toList_inj.mp same)
    have notFiller : ¬(text.toList = [] ∨ text.toList = ['.']) :=
      not_or.mpr ⟨differs full,differs notHere⟩
    have notUpper : text.toList ≠ ['.','.'] := differs notUp
    rw [Component.text,ofPart?,if_neg notFiller,if_neg notUpper,String.ofList_toList]

theorem filterMap_ofPart?_texts {rest : List Component} (inner : ∀ c ∈ rest, c.Inner) :
    (rest.map fun c => c.text.toList).filterMap ofPart? = rest := by
  induction rest with
  | nil => rfl
  | cons c rest ih =>
    rw [List.map_cons,List.filterMap_cons_some (ofPart?_text (inner c (by simp))),
      ih fun d member => inner d (List.mem_cons_of_mem c member)]

theorem inner_of_mem_filterMap {parts : List (List Char)} (clean : ∀ part ∈ parts, '/' ∉ part)
    {c : Component} (member : c ∈ parts.filterMap ofPart?) : c.Inner := by
  obtain ⟨part,inside,read⟩ := List.mem_filterMap.mp member
  exact inner_of_ofPart? (clean part inside) read

theorem not_mem_text {c : Component} (inner : c.Inner) : '/' ∉ c.text.toList := by
  cases c with
  | root => exact inner.elim
  | here => exact inner.elim
  | up => decide
  | name text => exact inner.2.2.2

theorem Proper.of_inner {components : List Component} (inner : ∀ c ∈ components, c.Inner) :
    Proper components := by
  cases components with
  | nil => trivial
  | cons first rest => exact ⟨.inr (.inr (inner first (by simp))),fun c member => inner c (by simp [member])⟩

theorem Proper.suffix {front rest : List Component} (proper : Proper (front ++ rest)) : Proper rest := by
  cases front with
  | nil => exact proper
  | cons first front => exact .of_inner fun c member => proper.2 c (List.mem_append_right front member)

end Component

namespace Path

open Component

theorem isFiller_iff {part : List Char} : isFiller part = true ↔ ofPart? part = none := by
  unfold isFiller ofPart?
  by_cases filler : part = [] ∨ part = ['.']
  · simp [filler]
  · obtain ⟨full,other⟩ := not_or.mp filler
    by_cases up : part = ['.','.'] <;> simp [full,other,up]

def relativeComponents : List (List Char) → List Component
  | ['.'] :: parts => .here :: parts.filterMap ofPart?
  | parts => parts.filterMap ofPart?

theorem componentsOf_absolute (rest : List Char) :
    componentsOf ('/' :: rest) = .root :: (splitAt '/' rest).filterMap ofPart? := rfl

theorem componentsOf_relative {text : List Char} (relative : text.head? ≠ some '/') :
    componentsOf text = relativeComponents (splitAt '/' text) := by
  unfold componentsOf
  split
  · simp at relative
  · rfl

theorem relativeComponents_of_ne {parts : List (List Char)} (other : parts.head? ≠ some ['.']) :
    relativeComponents parts = parts.filterMap ofPart? := by
  unfold relativeComponents
  split
  · simp at other
  · rfl

theorem componentsOf_proper (text : List Char) : Proper (componentsOf text) := by
  have clean (rest : List Char) : ∀ part ∈ splitAt '/' rest, '/' ∉ part := fun _ => not_mem_of_mem_splitAt
  by_cases absolute : text.head? = some '/'
  · obtain ⟨rest,rfl⟩ := List.head?_eq_some_iff.mp absolute
    exact ⟨.inl rfl,fun c => inner_of_mem_filterMap (clean rest)⟩
  · rw [componentsOf_relative absolute]
    have parted := clean text
    unfold relativeComponents
    split
    · next parts same =>
      rw [same] at parted
      exact ⟨.inr (.inl rfl),fun c =>
        inner_of_mem_filterMap fun part inside => parted part (List.mem_cons_of_mem _ inside)⟩
    · exact .of_inner fun c => inner_of_mem_filterMap parted

def keyText (components : List Component) : List Char :=
  joinWith ['/'] (components.map fun c => c.text.toList)

theorem head?_joinWith {part : List Char} (parts : List (List Char)) (full : part ≠ []) :
    (joinWith ['/'] (part :: parts)).head? = part.head? := by
  cases parts with
  | nil => rfl
  | cons next parts =>
    obtain ⟨c,part,rfl⟩ := List.exists_cons_of_ne_nil full
    rfl

theorem head?_text_of_inner {c : Component} (inner : c.Inner) :
    c.text.toList ≠ [] ∧ c.text.toList.head? ≠ some '/' ∧ c.text.toList ≠ ['.'] := by
  have read := ofPart?_text inner
  refine ⟨fun empty => ?_,fun slash => ?_,fun dot => ?_⟩
  · simp [empty,ofPart?] at read
  · exact not_mem_text inner (List.mem_of_mem_head? slash)
  · simp [dot,ofPart?] at read

theorem componentsOf_keyText_relative {first : Component} {rest : List Component}
    (clean : '/' ∉ first.text.toList) (full : first.text.toList ≠ []) (inner : ∀ c ∈ rest, c.Inner) :
    componentsOf (keyText (first :: rest)) =
      relativeComponents (first.text.toList :: rest.map fun c => c.text.toList) := by
  have relative : (keyText (first :: rest)).head? ≠ some '/' := by
    rw [keyText,List.map_cons,head?_joinWith _ full]
    exact fun slash => clean (List.mem_of_mem_head? slash)
  rw [componentsOf_relative relative,keyText,splitAt_joinWith (by simp)]
  · rfl
  · intro part member
    rcases List.mem_cons.mp member with rfl | later
    · exact clean
    · obtain ⟨c,inside,rfl⟩ := List.mem_map.mp later
      exact not_mem_text (inner c inside)

/-- A key read as a path has the components it was made from. The cases are the kinds of components
that can come first. -/
theorem componentsOf_keyText {components : List Component} (proper : Proper components) :
    componentsOf (keyText components) = components := by
  cases components with
  | nil => rfl
  | cons first rest =>
    obtain ⟨kind,inner⟩ := proper
    have read := filterMap_ofPart?_texts inner
    rcases kind with rfl | rfl | innerFirst
    · by_cases more : rest = []
      · subst more
        rfl
      · have clean : ∀ part ∈ rest.map fun c => c.text.toList, '/' ∉ part := by
          intro part member
          obtain ⟨c,inside,rfl⟩ := List.mem_map.mp member
          exact not_mem_text (inner c inside)
        have texts : (rest.map fun c => c.text.toList) ≠ [] := by simpa using more
        have shape : keyText (.root :: rest) = '/' :: '/' :: keyText rest := by
          rw [keyText,List.map_cons,joinWith_cons texts]
          rfl
        rw [shape,componentsOf_absolute,splitAt,if_pos rfl,keyText,splitAt_joinWith texts clean]
        exact congrArg _ read
    · rw [componentsOf_keyText_relative (by decide) (by decide) inner]
      exact congrArg _ read
    · obtain ⟨full,_,notHere⟩ := head?_text_of_inner innerFirst
      rw [componentsOf_keyText_relative (not_mem_text innerFirst) full inner,
        relativeComponents_of_ne (by simpa using notHere),
        List.filterMap_cons_some (ofPart?_text innerFirst),read]

theorem components_keyOf {components : List Component} (proper : Proper components) :
    (Path.mk (keyOf components)).components = components := by
  rw [Path.components,keyOf,String.toList_ofList]
  exact componentsOf_keyText proper

theorem components_proper (path : Path) : Proper path.components := componentsOf_proper _

theorem keyOf_injective {first second : List Component} (properFirst : Proper first)
    (properSecond : Proper second) (same : keyOf first = keyOf second) : first = second := by
  rw [← components_keyOf properFirst,same,components_keyOf properSecond]

theorem after?_eq_some_iff {base components rest : List Component} :
    after? base components = some rest ↔ components = base ++ rest := by
  induction base generalizing components with
  | nil => exact Option.some_inj
  | cons b base ih =>
    cases components with
    | nil => simp [after?]
    | cons c components =>
      by_cases same : b = c
      · subst same
        simp [after?,ih]
      · simp [after?,same,Ne.symm same]

theorem below?_eq_some {root path : Path} {rest : List Component}
    (below : path.components = root.components ++ rest) :
    root.below? path = some ⟨keyOf rest⟩ ∧ (Path.mk (keyOf rest)).key = keyOf rest := by
  have found := after?_eq_some_iff.mpr below
  have proper : Proper rest := Proper.suffix (below ▸ components_proper path)
  exact ⟨by rw [below?,found]; rfl,by rw [key,components_keyOf proper]⟩

-- Appending a name

theorem relativeComponents_append {parts : List (List Char)} (some : parts ≠ []) (more : List (List Char)) :
    relativeComponents (parts ++ more) = relativeComponents parts ++ more.filterMap ofPart? := by
  obtain ⟨first,rest,rfl⟩ := List.exists_cons_of_ne_nil some
  by_cases here : first = ['.']
  · subst here
    exact congrArg _ List.filterMap_append
  · rw [List.cons_append,relativeComponents_of_ne (by simpa using here),← List.cons_append,
      List.filterMap_append,relativeComponents_of_ne (by simpa using here)]

/-- After a text that is not empty, a separator only parts components. -/
theorem componentsOf_append {front : List Char} (some : front ≠ []) (back : List Char) :
    componentsOf (front ++ '/' :: back) = componentsOf front ++ (splitAt '/' back).filterMap ofPart? := by
  obtain ⟨c,rest,rfl⟩ := List.exists_cons_of_ne_nil some
  by_cases absolute : c = '/'
  · subst absolute
    rw [List.cons_append,componentsOf_absolute,componentsOf_absolute,splitAt_append_separator,
      List.filterMap_append]
    rfl
  · have relative (tail : List Char) : (c :: tail).head? ≠ Option.some '/' := by simpa using absolute
    rw [List.cons_append,componentsOf_relative (relative _),componentsOf_relative (relative _),
      ← List.cons_append,splitAt_append_separator,relativeComponents_append (splitAt_ne_nil _ _)]

theorem componentsOf_append_part {front part : List Char} (some : front ≠ []) (clean : '/' ∉ part) :
    componentsOf (front ++ '/' :: part) = componentsOf front ++ [part].filterMap ofPart? := by
  rw [componentsOf_append some,splitAt_of_not_mem clean]

/-- Joining appends a name to the components, whatever the text of the path ends in. -/
theorem components_join (path : Path) {name : String} (valid : IsName name) :
    (path.join ⟨name⟩).components = path.components ++ [.name name] := by
  have inner : (Component.name name).Inner := valid
  have clean : '/' ∉ name.toList := not_mem_text inner
  have last : [name.toList].filterMap ofPart? = [.name name] :=
    List.filterMap_cons_some (ofPart?_text inner)
  have relative : name.toList.head? ≠ some '/' := (head?_text_of_inner inner).2.1
  have alone : ¬(Path.mk name).isAbsolute = true := by simpa [isAbsolute] using relative
  rw [join,if_neg alone]
  split
  · next empty =>
    have bare : path.text.toList = [] := List.getLast?_eq_none_iff.mp empty
    have spelled : name.toList ≠ ['.'] := (head?_text_of_inner inner).2.2
    have notHere : [name.toList].head? ≠ some ['.'] := by simpa using spelled
    rw [components,components,bare,componentsOf_relative relative,splitAt_of_not_mem clean,
      relativeComponents_of_ne notHere,last]
    rfl
  · next slash =>
    obtain ⟨front,ending⟩ := List.getLast?_eq_some_iff.mp slash
    rw [components,components,String.toList_append,ending,List.append_assoc,List.singleton_append]
    by_cases only : front = []
    · subst only
      rw [List.nil_append,List.nil_append,componentsOf_absolute,splitAt_of_not_mem clean,last]
      rfl
    · rw [componentsOf_append_part only clean,last,componentsOf_append_part only List.not_mem_nil]
      simp [ofPart?]
  · next ending =>
    have some : path.text.toList ≠ [] := by
      intro bare
      simp [bare] at ending
    rw [components,components,String.toList_append,String.toList_append,List.append_assoc]
    exact (componentsOf_append_part some clean).trans (congrArg _ last)

end Path

end SourceAtlas
