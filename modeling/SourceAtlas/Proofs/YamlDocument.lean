import SourceAtlas.Proofs.YamlMembers
import SourceAtlas.Yaml.Node

/-! Reading written members back. Names and values go in turn into the one open mapping; a list of dashed
items has no end of its own and is closed by the token after it. -/
namespace SourceAtlas.Yaml.Reading

/-- Within the members of a document: what comes next, and the names and values so far, latest first. -/
def within (expected : Expected) (parts : List Node) : Reading :=
  ⟨expected,[⟨.blockMapping,.none,parts⟩],none,[],defaultHandles⟩

def withinList (expected : Expected) (items parts : List Node) : Reading :=
  ⟨expected,[⟨.dashedList,.none,items⟩,⟨.blockMapping,.none,parts⟩],none,[],defaultHandles⟩

def ended (parts : List Node) : Reading :=
  ⟨.indicator,[],some (.mapping .none (membersOf parts.reverse)),[],defaultHandles⟩

theorem prepareAll_of_prepare? {reading : Reading} {token : Token} (ready : reading.prepare? token = none)
    (limit : Nat) : reading.prepareAll token limit = reading := by
  cases limit with
  | zero => rfl
  | succ limit =>
    rw [prepareAll,ready]
    cases reading.done <;> rfl

theorem take?_of_prepare? {reading next : Reading} {token : Token} (unfinished : reading.done = none)
    (prepared : reading.prepare? token = some next) (ready : next.prepare? token = none) :
    reading.take? token = next.take? token := by
  have same : reading.prepareAll token preparations = next.prepareAll token preparations := by
    rw [prepareAll_of_prepare? ready,preparations,prepareAll,unfinished,prepared]
    exact prepareAll_of_prepare? ready 7
  rw [take?,take?,same]

theorem prepare?_within {parts : List Node} (even : parts.length % 2 = 0) (token : Token) :
    (within .indicator parts).prepare? token = none := by
  simp [prepare?,within,Frame.awaitsValue,even]

/-- A reading goes on like one with these names and values, all of them complete, at the next name and
at the end. -/
structure Settles (reading : Reading) (parts : List Node) : Prop where
  key : reading.take? .key = some (within .slot parts)
  blockEnd : reading.take? .blockEnd = some (ended parts)

theorem settles_within {parts : List Node} (even : parts.length % 2 = 0) :
    Settles (within .indicator parts) parts := by
  constructor
  · rw [take?,prepareAll_of_prepare? (prepare?_within even .key)]
    simp [within,takeIndicator?,Frame.awaitsValue,even,expect]
  · rw [take?,prepareAll_of_prepare? (prepare?_within even .blockEnd)]
    simp [within,takeIndicator?,Frame.awaitsValue,even,close,complete,Frame.toNode,Frame.isMapping,ended]

theorem settles_withinList {parts : List Node} (odd : parts.length % 2 = 1) (items : List Node) :
    Settles (withinList .indicator items parts) (.sequence .none items.reverse :: parts) := by
  have even : (Node.sequence .none items.reverse :: parts).length % 2 = 0 := by
    rw [List.length_cons]
    omega
  have closes (token : Token) (other : token ≠ .dash) : (withinList .indicator items parts).take? token =
      (within .indicator (.sequence .none items.reverse :: parts)).take? token := by
    refine take?_of_prepare? rfl ?_ (prepare?_within even token)
    simp [prepare?,withinList,other,close,complete,putInto,Frame.toNode,Frame.isMapping,Frame.push,within]
  have settled := settles_within even
  exact ⟨(closes .key (by decide)).trans settled.key,(closes .blockEnd (by decide)).trans settled.blockEnd⟩

-- Values

/-- The tokens of a value are taken to its node. -/
def TakesValue (tokens : List Token) (node : Node) : Prop :=
  ∀ parts : List Node, parts.length % 2 = 1 →
    ∃ next, tokens.foldlM take? (within .slot parts) = some next ∧ Settles next (node :: parts)

theorem even_cons {parts : List Node} (odd : parts.length % 2 = 1) (node : Node) :
    (node :: parts).length % 2 = 0 := by
  rw [List.length_cons]
  omega

theorem takesValue_scalar (style : Style) (text : String) :
    TakesValue [.scalar style text] (.scalar .none style text) :=
  fun _ odd => ⟨_,rfl,settles_within (even_cons odd _)⟩

theorem takesValue_brackets : TakesValue [.openSequence,.closeSequence] (.sequence .none []) :=
  fun _ odd => ⟨_,rfl,settles_within (even_cons odd _)⟩

/-- Each dash with its scalar adds an item to a list that is open. -/
theorem take?_items (items : List (Style × String)) (nodes parts : List Node) :
    (items.flatMap fun item => [.dash,.scalar item.1 item.2]).foldlM take?
        (withinList .indicator nodes parts) =
      some (withinList .indicator
        ((items.map fun item => .scalar .none item.1 item.2).reverse ++ nodes) parts) := by
  induction items generalizing nodes with
  | nil => rfl
  | cons item rest ih =>
    have taken : [Token.dash,.scalar item.1 item.2].foldlM take? (withinList .indicator nodes parts) =
        some (withinList .indicator (.scalar .none item.1 item.2 :: nodes) parts) := rfl
    rw [List.flatMap_cons,List.foldlM_append,taken]
    simp only [Option.bind_eq_bind,Option.bind_some]
    rw [ih,List.map_cons,List.reverse_cons,List.append_assoc]
    rfl

theorem takesValue_items {items : List (Style × String)} (nonempty : items ≠ []) :
    TakesValue (items.flatMap fun item => [.dash,.scalar item.1 item.2])
      (.sequence .none (items.map fun item => .scalar .none item.1 item.2)) := by
  intro parts odd
  obtain ⟨first,rest,rfl⟩ := List.exists_cons_of_ne_nil nonempty
  -- The first dash opens the list.
  have opens : [Token.dash,.scalar first.1 first.2].foldlM take? (within .slot parts) =
      some (withinList .indicator [.scalar .none first.1 first.2] parts) := rfl
  have taken := take?_items rest [.scalar .none first.1 first.2] parts
  have settled := settles_withinList odd
    ((rest.map fun item => Node.scalar .none item.1 item.2).reverse ++ [.scalar .none first.1 first.2])
  rw [List.reverse_append,List.reverse_reverse] at settled
  refine ⟨_,?_,settled⟩
  rw [List.flatMap_cons,List.foldlM_append,opens]
  exact taken

-- Members

def partsOf (members : List (Node × Node)) : List Node := members.flatMap fun member => [member.1,member.2]

theorem membersOf_partsOf (members : List (Node × Node)) : membersOf (partsOf members) = members := by
  induction members with
  | nil => rfl
  | cons member rest ih => exact congrArg (member :: ·) ih

theorem length_partsOf (members : List (Node × Node)) : (partsOf members).length % 2 = 0 := by
  induction members with
  | nil => rfl
  | cons member rest ih =>
    have length : (partsOf (member :: rest)).length = (partsOf rest).length + 2 := rfl
    omega

/-- The tokens of members are taken to their names and values. -/
def TakesMembers (tokens : List Token) (members : List (Node × Node)) : Prop :=
  ∀ (reading : Reading) (parts : List Node), parts.length % 2 = 0 → Settles reading parts →
    ∃ next, tokens.foldlM take? reading = some next ∧ Settles next ((partsOf members).reverse ++ parts)

theorem TakesMembers.nil : TakesMembers [] [] := fun reading _ _ settled => ⟨reading,rfl,settled⟩

theorem TakesMembers.append {first second : List Token} {members others : List (Node × Node)}
    (before : TakesMembers first members) (after : TakesMembers second others) :
    TakesMembers (first ++ second) (members ++ others) := by
  intro reading parts even settled
  obtain ⟨middle,taken,still⟩ := before reading parts even settled
  have length : ((partsOf members).reverse ++ parts).length % 2 = 0 := by
    have := length_partsOf members
    rw [List.length_append,List.length_reverse]
    omega
  obtain ⟨next,takenMore,settles⟩ := after middle _ length still
  refine ⟨next,?_,?_⟩
  · rw [List.foldlM_append,taken]
    exact takenMore
  · rw [partsOf,List.flatMap_append,List.reverse_append,List.append_assoc]
    exact settles

theorem TakesMembers.member {tokens : List Token} {node : Node} (takes : TakesValue tokens node)
    (name : String) : TakesMembers ([.key,.scalar .plain name,.value] ++ tokens)
      [(.scalar .none .plain name,node)] := by
  intro reading parts even settled
  have odd : (Node.scalar .none .plain name :: parts).length % 2 = 1 := by
    rw [List.length_cons]
    omega
  have named : (within .slot parts).take? (.scalar .plain name) =
      some (within .indicator (.scalar .none .plain name :: parts)) := rfl
  have valued : (within .indicator (.scalar .none .plain name :: parts)).take? .value =
      some (within .slot (.scalar .none .plain name :: parts)) := by
    have ready : (within .indicator (.scalar .none .plain name :: parts)).prepare? .value = none := by
      simp [prepare?,within]
    rw [take?,prepareAll_of_prepare? ready]
    simp only [within,takeIndicator?,Frame.awaitsValue,odd]
    rfl
  obtain ⟨next,taken,settles⟩ := takes _ odd
  refine ⟨next,?_,settles⟩
  simp only [List.cons_append,List.nil_append,List.foldlM_cons,settled.key,named,valued,
    Option.bind_eq_bind,Option.bind_some]
  exact taken

theorem documentOf?_members {tokens : List Token} {members : List (Node × Node)}
    (takes : TakesMembers tokens members) :
    documentOf? (.mappingStart :: tokens ++ [Token.blockEnd]) = some (.node (.mapping .none members)) := by
  obtain ⟨next,taken,settled⟩ := takes (within .indicator []) [] rfl (settles_within rfl)
  have opened : (Reading.mk (.node .none) [] none [] defaultHandles).take? .mappingStart =
      some (within .indicator []) := rfl
  have read : (Token.mappingStart :: tokens ++ [Token.blockEnd]).foldlM take?
      ⟨.node .none,[],none,[],defaultHandles⟩ = some (ended ((partsOf members).reverse ++ [])) := by
    rw [List.cons_append,List.foldlM_cons,opened,Option.bind_eq_bind,Option.bind_some,List.foldlM_append,
      taken,Option.bind_eq_bind,Option.bind_some,List.foldlM_cons,settled.blockEnd]
    rfl
  have finished : (ended ((partsOf members).reverse ++ [])).finish? = some (.mapping .none members) := by
    rw [List.append_nil]
    simp [finish?,preparations,prepareAll,ended,membersOf_partsOf]
  have whole : documentOf? (.mappingStart :: tokens ++ [Token.blockEnd]) =
      (do return .node (← (← (Token.mappingStart :: tokens ++ [Token.blockEnd]).foldlM take?
        ⟨.node .none,[],none,[],defaultHandles⟩).finish?)) := rfl
  rw [whole,read,Option.bind_eq_bind,Option.bind_some,finished]
  rfl

end SourceAtlas.Yaml.Reading

-- Texts of members

namespace SourceAtlas.Yaml

def nameNode (name : String) : Node := .scalar .none .plain name

def textNode (text : String) : Node := .scalar .none (styleOf text) text

def listNode (texts : List String) : Node := .sequence .none (texts.map textNode)

theorem takesValue_list (texts : List String) : Reading.TakesValue (listTokens texts) (listNode texts) := by
  cases texts with
  | nil => exact Reading.takesValue_brackets
  | cons text texts =>
    have takes := Reading.takesValue_items
      (show (text :: texts).map (fun text => (styleOf text,text)) ≠ [] from List.cons_ne_nil _ _)
    rw [List.flatMap_map,List.map_map] at takes
    exact takes

/-- Written lines are read back as members with these names and values. -/
def ReadsMembers (written : List Char) (members : List (Node × Node)) : Prop :=
  ∃ tokens, ReadsLines written tokens ∧ Reading.TakesMembers tokens members

namespace ReadsMembers

theorem nil : ReadsMembers [] [] := ⟨[],.nil,.nil⟩

theorem append {first second : List Char} {members others : List (Node × Node)}
    (before : ReadsMembers first members) (after : ReadsMembers second others) :
    ReadsMembers (first ++ second) (members ++ others) := by
  obtain ⟨tokens,reads,takes⟩ := before
  obtain ⟨more,readsMore,takesMore⟩ := after
  exact ⟨tokens ++ more,reads.append readsMore,takes.append takesMore⟩

theorem text {name : String} (isName : MemberName name) (text : String) :
    ReadsMembers (writeMember name (writeText text)) [(nameNode name,textNode text)] :=
  ⟨_,.member isName (readsValue_writeText text),.member (Reading.takesValue_scalar _ text) name⟩

theorem plain {name : String} (isName : MemberName name) {c : Char} {rest : List Char}
    (plain : PlainText c rest) : ReadsMembers (writeMember name (c :: rest))
      [(nameNode name,nameNode (String.ofList (c :: rest)))] :=
  ⟨_,.member isName (readsValue_plain plain),.member (Reading.takesValue_scalar .plain _) name⟩

theorem list {name : String} (isName : MemberName name) (texts : List String) :
    ReadsMembers (writeList name texts) [(nameNode name,listNode texts)] :=
  ⟨_,.list isName texts,.member (takesValue_list texts) name⟩

end ReadsMembers

/-- A text of members, the first with a text as its value, is the document with these members. -/
theorem document?_members {name : String} (isName : MemberName name) (text : String)
    {lines : List Char} {members : List (Node × Node)} (reads : ReadsMembers lines members) :
    document? (writeMember name (writeText text) ++ lines) =
      some (.node (.mapping .none ((nameNode name,textNode text) :: members))) := by
  obtain ⟨tokens,readsLines,takes⟩ := reads
  have first := Reading.TakesMembers.member (Reading.takesValue_scalar (styleOf text) text) name
  rw [document?,tokens?_members isName (readsValue_writeText text) readsLines,Option.bind_eq_bind,
    Option.bind_some]
  exact Reading.documentOf?_members (first.append takes)

end SourceAtlas.Yaml
