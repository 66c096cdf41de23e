import SourceAtlas.Dialect
import SourceAtlas.Proofs.Collection
import SourceAtlas.Proofs.DefaultSources

/-! The dialects of source files. What the default source patterns take has a dialect, told by its ending,
except for files whose whole name is an ending. -/
namespace SourceAtlas

open SourceFilter (defaultFilter new_default)
open Text (joinWith splitAt)

-- Ends of keys and of file names

theorem suffix_unmarked {mark : Char} {ending front rest : List Char} (clean : mark ∉ ending)
    (ends : ending <:+ front ++ mark :: rest) : ending <:+ rest := by
  have whole : mark :: rest <:+ front ++ mark :: rest := List.suffix_append ..
  rcases List.suffix_or_suffix_of_suffix ends whole with inside | outside
  · rcases List.suffix_cons_iff.mp inside with rfl | inside
    · exact absurd List.mem_cons_self clean
    · exact inside
  · exact absurd (outside.subset List.mem_cons_self) clean

/-- An ending of a key that can neither cross a separator nor end a step is one of the file name. -/
theorem fileName?_of_ending {path : Path} {ending : List Char} {c : Char} (clean : '/' ∉ ending)
    (last : ending.getLast? = some c) (solid : c ≠ '.') (ends : ending <:+ path.key.toList) :
    ∃ stem, path.fileName? = some (String.ofList (stem ++ ending)) := by
  have named : c ≠ '/' := fun same => clean (same ▸ List.mem_of_getLast? last)
  have spelled : path.key.toList = Path.keyText path.components := by
    rw [Path.key,Path.keyOf,String.toList_ofList]
    rfl
  rw [spelled] at ends
  obtain empty | ⟨front,component,whole⟩ := List.eq_nil_or_concat path.components
  · rw [empty] at ends
    rw [List.suffix_nil.mp ends] at last
    cases last
  · rw [List.concat_eq_append] at whole
    rw [whole] at ends
    have inside : ending <:+ component.text.toList := by
      rw [Path.keyText,List.map_append,List.map_singleton,Text.joinWith_concat] at ends
      rcases Text.flatMap_separator ['/'] (front.map fun c => c.text.toList) with none | ⟨before,some⟩
      · rwa [none] at ends
      · rw [some,List.append_assoc] at ends
        exact suffix_unmarked clean ends
    have final : component.text.toList.getLast? = some c := by
      obtain ⟨stem,parted⟩ := inside
      rw [← parted,List.getLast?_append,last]
      rfl
    obtain ⟨stem,parted⟩ := inside
    cases component with
    | root => exact absurd (Option.some.inj final).symm named
    | here => exact absurd (Option.some.inj final).symm solid
    | up => exact absurd (Option.some.inj final).symm solid
    | name text =>
      refine ⟨stem,?_⟩
      rw [Path.fileName?,whole,List.getLast?_concat,parted]
      exact congrArg some String.ofList_toList.symm

/-- What follows the last dot of a name is its extension, unless that dot is its first character. -/
theorem extension?_of_fileName {path : Path} {stem extension : List Char} (undotted : '.' ∉ extension)
    (named : path.fileName? = some (String.ofList (stem ++ '.' :: extension))) :
    path.extension? = if stem = [] then none else some (String.ofList extension) := by
  have parts : splitAt '.' (stem ++ '.' :: extension) = splitAt '.' stem ++ [extension] := by
    rw [Text.splitAt_append_separator,Text.splitAt_of_not_mem undotted]
  rw [Path.extension?,named,Option.bind_some,String.toList_ofList,parts,List.reverse_append]
  by_cases bare : stem = []
  · subst bare
    rfl
  · rw [if_neg bare]
    cases split : (splitAt '.' stem).reverse with
    | nil => exact absurd (List.reverse_eq_nil_iff.mp split) (Text.splitAt_ne_nil '.' stem)
    | cons before rest =>
      apply if_neg
      rintro ⟨rfl,rfl⟩
      exact bare (Text.eq_nil_of_splitAt (List.reverse_eq_iff.mp split))

-- Endings of sources

def typeScriptEndings : List String := [".ts",".mts",".cts"]

def tsxEndings : List String := [".tsx",".js",".jsx",".mjs",".cjs"]

def knownEndings : List String := typeScriptEndings ++ tsxEndings

/-- An ending is a dot and an extension in which there is no other dot, nor a separator. -/
structure IsDotted (ending extension : List Char) : Prop where
  spelled : ending = '.' :: extension
  undotted : '.' ∉ extension
  inside : '/' ∉ ending
  solid : ∃ c, ending.getLast? = some c ∧ c ≠ '.'

theorem dotted_of_known {ending : String} (known : ending ∈ knownEndings) :
    IsDotted ending.toList ending.toList.tail := by
  have shape : ∀ ending ∈ knownEndings, ending.toList = '.' :: ending.toList.tail ∧
      '.' ∉ ending.toList.tail ∧ '/' ∉ ending.toList ∧
      (ending.toList.getLast? = some 's' ∨ ending.toList.getLast? = some 'x') := by decide
  obtain ⟨spelled,undotted,inside,last⟩ := shape ending known
  rcases last with last | last
  · exact ⟨spelled,undotted,inside,'s',last,by decide⟩
  · exact ⟨spelled,undotted,inside,'x',last,by decide⟩

/-- A key has only one of the known endings. -/
theorem ending_unique {first second : String} (knownFirst : first ∈ knownEndings)
    (knownSecond : second ∈ knownEndings) {key : List Char}
    (endsFirst : first.toList <:+ key) (endsSecond : second.toList <:+ key) : first = second := by
  have only {some other : String} (known : some ∈ knownEndings) (knownOther : other ∈ knownEndings)
      (ends : some.toList <:+ other.toList) : some = other := by
    have dotted := dotted_of_known known
    have dottedOther := dotted_of_known knownOther
    rw [dottedOther.spelled,List.suffix_cons_iff] at ends
    rcases ends with whole | inside
    · exact String.toList_inj.mp (whole.trans dottedOther.spelled.symm)
    · have dot : '.' ∈ some.toList := dotted.spelled ▸ List.mem_cons_self
      exact absurd (inside.subset dot) dottedOther.undotted
  rcases List.suffix_or_suffix_of_suffix endsFirst endsSecond with inside | inside
  · exact only knownFirst knownSecond inside
  · exact (only knownSecond knownFirst inside).symm

theorem exists_ending_iff {endings : List String} (all : ∀ other ∈ endings, other ∈ knownEndings)
    {ending : String} (known : ending ∈ knownEndings) {key : List Char}
    (ends : ending.toList <:+ key) : (∃ other ∈ endings, other.toList <:+ key) ↔ ending ∈ endings := by
  constructor
  · rintro ⟨other,inside,endsOther⟩
    exact ending_unique (all other inside) known endsOther ends ▸ inside
  · intro inside
    exact ⟨ending,inside,ends⟩

theorem ofExtension?_of_known {ending : String} (known : ending ∈ knownEndings) :
    Dialect.ofExtension? (String.ofList ending.toList.tail) =
      some (if ending ∈ typeScriptEndings then .typeScript else .tsx) := by
  revert ending
  decide

/-- A path whose key has a known ending has the dialect of that ending, unless its name is no more. -/
theorem ofPath?_of_ending {path : Path} {ending : String} (known : ending ∈ knownEndings)
    (ends : ending.toList <:+ path.key.toList) : Dialect.ofPath? path =
      if path.fileName? = some ending then none
      else some (if ending ∈ typeScriptEndings then .typeScript else .tsx) := by
  obtain ⟨spelled,undotted,inside,c,last,solid⟩ := dotted_of_known known
  obtain ⟨stem,named⟩ := fileName?_of_ending inside last solid ends
  have bare : path.fileName? = some ending ↔ stem = [] := by
    rw [named,Option.some_inj,← String.toList_inj,String.toList_ofList,List.append_left_eq_self]
  rw [spelled] at named
  rw [Dialect.ofPath?,extension?_of_fileName undotted named]
  by_cases empty : stem = []
  · rw [if_pos empty,if_pos (bare.mpr empty)]
    rfl
  · rw [if_neg empty,if_neg fun whole => empty (bare.mp whole)]
    exact ofExtension?_of_known known

-- Dialects of sources

theorem ending_of_fileName {path : Path} {ending name : String} (known : ending ∈ knownEndings)
    (ends : ending.toList <:+ path.key.toList) (named : path.fileName? = some name) :
    ending.toList <:+ name.toList := by
  obtain ⟨_,_,inside,_,last,solid⟩ := dotted_of_known known
  obtain ⟨stem,whole⟩ := fileName?_of_ending inside last solid ends
  rw [Option.some.inj (named.symm.trans whole),String.toList_ofList]
  exact List.suffix_append stem ending.toList

/-- A source chosen by the default patterns has no dialect exactly if its whole name is an ending. Else
the ending of its key tells the dialect. -/
theorem dialect_of_isSource {settings : Settings} {options : CompilerOptions} {filter : SourceFilter}
    {path : Path} (globs : settings.sourceGlobs = Settings.default.sourceGlobs)
    (chosen : SourceFilter.new settings options = .ok filter) (taken : filter.isSource path = true) :
    (Dialect.ofPath? path = none ↔
      ∃ ending ∈ SourceFilter.endings options.allowJavaScript, path.fileName? = some ending) ∧
    (Dialect.ofPath? path ≠ none →
      (Dialect.ofPath? path = some .typeScript ↔
        ∃ ending ∈ typeScriptEndings, ending.toList <:+ path.key.toList) ∧
      (Dialect.ofPath? path = some .tsx ↔ ∃ ending ∈ tsxEndings, ending.toList <:+ path.key.toList)) := by
  have all : ∀ ending ∈ SourceFilter.endings options.allowJavaScript, ending ∈ knownEndings := by
    cases options.allowJavaScript <;> decide
  have apart : ∀ ending ∈ knownEndings, ending ∈ tsxEndings ↔ ending ∉ typeScriptEndings := by decide
  have matched : Glob.anyMatch filter.sources path.key = true := by
    simp only [SourceFilter.isSource,Bool.and_eq_true] at taken
    exact taken.1.1.1
  rw [SourceFilter.new_sources globs chosen,SourceFilter.anyMatch_sources] at matched
  obtain ⟨ending,member,ends⟩ := matched
  have known := all ending member
  have bare : (∃ other ∈ SourceFilter.endings options.allowJavaScript, path.fileName? = some other) ↔
      path.fileName? = some ending := by
    constructor
    · rintro ⟨other,memberOther,whole⟩
      have within := ending_of_fileName known ends whole
      rw [ending_unique known (all other memberOther) within List.suffix_rfl,whole]
    · intro whole
      exact ⟨ending,member,whole⟩
  rw [bare,exists_ending_iff (fun _ => List.mem_append_left _) known ends,
    exists_ending_iff (fun _ => List.mem_append_right _) known ends,apart ending known,
    ofPath?_of_ending known ends]
  by_cases whole : path.fileName? = some ending
  · simp [whole]
  · by_cases inside : ending ∈ typeScriptEndings
    · simp [whole,inside]
    · simp [whole,inside]

theorem dialect_of_isSource_module : Dialect.ofPath? ⟨"src/a.d.b.mts"⟩ = some .typeScript ∧
    Dialect.ofPath? ⟨"x/.tsx"⟩ = none := by
  have module : defaultFilter.isSource ⟨"src/a.d.b.mts"⟩ = true := by decide +kernel
  have bare : defaultFilter.isSource ⟨"x/.tsx"⟩ = true := by decide +kernel
  obtain ⟨whole,dialects⟩ := dialect_of_isSource rfl new_default module
  have some : Dialect.ofPath? ⟨"src/a.d.b.mts"⟩ ≠ none := by
    rw [Ne,whole]
    decide
  exact ⟨(dialects some).1.mpr ⟨".mts",by decide,by decide⟩,
    (dialect_of_isSource rfl new_default bare).1.mpr ⟨".tsx",by decide,by decide⟩⟩

/-- Not every source chosen by the default patterns has the dialect of its ending: a file named `.tsx` has none. -/
theorem dialect_missing : ¬∀ (settings : Settings) (options : CompilerOptions) (filter : SourceFilter)
    (path : Path), settings.sourceGlobs = Settings.default.sourceGlobs →
    SourceFilter.new settings options = .ok filter → filter.isSource path = true →
    Dialect.ofPath? path ≠ none ∧
      (Dialect.ofPath? path = some .typeScript ↔
        ∃ ending ∈ typeScriptEndings, ending.toList <:+ path.key.toList) ∧
      (Dialect.ofPath? path = some .tsx ↔ ∃ ending ∈ tsxEndings, ending.toList <:+ path.key.toList) := by
  intro always
  have taken : defaultFilter.isSource ⟨"x/.tsx"⟩ = true := by decide +kernel
  exact (always _ _ _ ⟨"x/.tsx"⟩ rfl new_default taken).1 (by decide)

end SourceAtlas
