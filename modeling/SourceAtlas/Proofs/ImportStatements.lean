import SourceAtlas.Declaration.Imports
import SourceAtlas.Proofs.FirstFault
import SourceAtlas.Proofs.Utf8

/-! The recorded imports of a file: one text for each import statement at the top of its tree, as it
stands in the source and with a semicolon at its end. -/
namespace SourceAtlas

-- Texts between boundaries

theorem Utf8.exists_between {text : List Char} {start stop : Nat} (low : IsBoundary text start)
    (high : IsBoundary text stop) :
    ∃ between, encode between = ((encode text).drop start).take (stop - start) := by
  obtain ⟨before,rest,rfl,rfl⟩ := low
  obtain ⟨front,after,same,rfl⟩ := high
  rcases List.append_eq_append_iff.mp same with ⟨between,rfl,rfl⟩ | ⟨overlap,rfl,_⟩
  · refine ⟨between,?_⟩
    rw [encode_append before,encode_append before,encode_append between,List.drop_left,List.length_append,
      Nat.add_sub_cancel_left,List.take_left]
  · refine ⟨[],?_⟩
    rw [encode_append,List.length_append,Nat.sub_eq_zero_of_le (Nat.le_add_right _ _)]
    rfl

namespace Syntax

/-- An import statement. The assignment of a required module is none. -/
structure Node.Imports (node : Node) : Prop where
  named : node.named = true
  statement : node.kind = "import_statement"
  direct : ∀ child ∈ node.children, child.named = true → child.kind ≠ "import_require_clause"

theorem Node.imports_iff {node : Node} : node.Imports ↔ node.named = true ∧
    node.kind = "import_statement" ∧
    ∀ child ∈ node.children, child.named = true → child.kind ≠ "import_require_clause" :=
  ⟨fun ⟨named,statement,direct⟩ => ⟨named,statement,direct⟩,
    fun ⟨named,statement,direct⟩ => ⟨named,statement,direct⟩⟩

instance (node : Node) : Decidable node.Imports := decidable_of_iff' _ Node.imports_iff

namespace SourceFile

def importPlaces (file : SourceFile) : List Place := file.root.children.filter (·.node.Imports)

/-- The import statements of a file that no other node holds, in source order. -/
def importNodes (file : SourceFile) : List Node := file.tree.children.filter (·.Imports)

theorem map_node_importPlaces (file : SourceFile) : file.importPlaces.map (·.node) = file.importNodes := by
  have children : file.root.children.map (·.node) = file.tree.children := file.root.map_node_children
  rw [importNodes,← children,List.filter_map]
  rfl

/-- An entry holds the text of a node, with a semicolon behind it unless the text ends in one. -/
def Terminates (file : SourceFile) (node : Node) (entry : String) : Prop :=
  ∃ text, Utf8.encode text = file.slice node.start node.stop ∧
    entry.toList = if text.getLast? = some ';' then text else text ++ [';']

theorem text_of_encoded {file : SourceFile} {node : Node} {text : List Char}
    (encoded : Utf8.encode text = file.slice node.start node.stop) :
    file.text node = String.ofList text := by
  rw [SourceFile.text,← encoded,Utf8.decode?_encode]

end SourceFile

end Syntax

open Syntax

theorem toList_terminated (text : String) : (terminated text).toList =
    if text.toList.getLast? = some ';' then text.toList else text.toList ++ [';'] := by
  unfold terminated
  split
  · rfl
  · exact String.toList_push _

theorem terminated_ends (text : String) : (terminated text).toList.getLast? = some ';' := by
  rw [toList_terminated]
  split
  · assumption
  · exact List.getLast?_concat

/-- The entry of a statement that these bytes write. -/
def entryOf (bytes : List UInt8) : String :=
  match Utf8.decode? bytes with
  | some text => terminated (String.ofList text)
  | none => terminated ""

theorem terminated_text (file : SourceFile) (node : Node) :
    terminated (file.text node) = entryOf (file.slice node.start node.stop) := by
  unfold SourceFile.text entryOf
  cases Utf8.decode? (file.slice node.start node.stop) <;> rfl

theorem map_terminated_text (file : SourceFile) (nodes : List Node) :
    nodes.map (fun node => terminated (file.text node)) =
      (nodes.map fun node => file.slice node.start node.stop).map entryOf := by
  rw [List.map_map]
  exact List.map_congr_left fun node _ => terminated_text file node

theorem isImport_iff {place : Place} (named : place.node.named = true) :
    isImport place = true ↔ place.node.Imports := by
  have children : place.namedChildren.any (fun child => child.node.kind == "import_require_clause") =
      (place.node.children.filter (·.named)).any (·.kind == "import_require_clause") := by
    rw [← place.map_node_namedChildren,List.any_map]
    rfl
  rw [isImport,children,Node.imports_iff]
  simp [named]

theorem filter_isImport (file : SourceFile) :
    file.root.namedChildren.filter isImport = file.importPlaces := by
  rw [SourceFile.importPlaces,Place.namedChildren,List.filter_filter]
  apply List.filter_congr
  intro place _
  rw [Bool.eq_iff_iff,Bool.and_eq_true,decide_eq_true_iff]
  constructor
  · rintro ⟨here,named⟩
    exact (isImport_iff named).mp here
  · intro here
    exact ⟨(isImport_iff here.named).mpr here,here.named⟩

namespace Reader

variable {reader : Reader} {file : SourceFile}

/-- The entry of an import statement. -/
def importEntry (reader : Reader) (file : SourceFile) (place : Place) : Except Fault String := do
  return terminated (← reader.print .kept file place)

theorem importEntry_eq_ok_iff {place : Place} {entry : String} :
    reader.importEntry file place = .ok entry ↔
      ∃ text, reader.print .kept file place = .ok text ∧ entry = terminated text := by
  rw [importEntry,bind_eq_ok_iff]
  exact exists_congr fun text => and_congr_right fun _ =>
    ⟨fun returned => (Except.ok.inj returned).symm,fun same => congrArg _ same.symm⟩

theorem importEntry_eq_error_iff {place : Place} {fault : Fault} :
    reader.importEntry file place = .error fault ↔ reader.print .kept file place = .error fault := by
  rw [importEntry,bind_eq_error_iff]
  exact or_iff_left fun ⟨_,_,returned⟩ => nomatch returned

theorem imports_eq (reader : Reader) (file : SourceFile) :
    reader.imports file = file.importPlaces.mapM (reader.importEntry file) := by
  rw [imports,filter_isImport]
  rfl

theorem imports_eq_ok_iff {entries : List String} : reader.imports file = .ok entries ↔
    List.Forall₂ (fun place entry => ∃ text, reader.print .kept file place = .ok text ∧
      entry = terminated text) file.importPlaces entries := by
  rw [imports_eq,mapM_eq_ok_iff]
  simp only [importEntry_eq_ok_iff]

theorem imports_eq_error_iff {fault : Fault} : reader.imports file = .error fault ↔
    ∃ before place after, file.importPlaces = before ++ place :: after ∧
      (∀ earlier ∈ before, ∃ text, reader.print .kept file earlier = .ok text) ∧
      reader.print .kept file place = .error fault := by
  have printed (place : Place) : (∃ entry, reader.importEntry file place = .ok entry) ↔
      ∃ text, reader.print .kept file place = .ok text := by
    simp only [importEntry_eq_ok_iff]
    exact ⟨fun ⟨_,text,same,_⟩ => ⟨text,same⟩,fun ⟨text,same⟩ => ⟨terminated text,text,same,rfl⟩⟩
  rw [imports_eq,mapM_eq_error_iff]
  simp only [printed,importEntry_eq_error_iff]

theorem imports_syntactic (file : SourceFile) :
    syntactic.imports file = .ok (file.importNodes.map fun node => terminated (file.text node)) := by
  rw [← file.map_node_importPlaces,List.map_map,imports_eq]
  exact mapM_eq_ok_map fun _ _ => rfl

/-- The imports of a file are the texts of its import statements, each as the reader prints it, or the
fault of the first one that cannot be printed. In a text of whole characters the syntactic reader prints
every statement as it stands there, so each entry is the text of its statement and ends in a semicolon,
and nothing but the texts of the statements decides what is recorded. -/
theorem imports_exact (file : SourceFile) :
    file.importPlaces.map (·.node) = file.importNodes ∧
    (∀ (reader : Reader) (entries : List String), reader.imports file = .ok entries ↔
      List.Forall₂ (fun place entry => ∃ text, reader.print .kept file place = .ok text ∧
        entry = terminated text) file.importPlaces entries) ∧
    (∀ (reader : Reader) (fault : Fault), reader.imports file = .error fault ↔
      ∃ before place after, file.importPlaces = before ++ place :: after ∧
        (∀ earlier ∈ before, ∃ text, reader.print .kept file earlier = .ok text) ∧
        reader.print .kept file place = .error fault) ∧
    ∀ text, file.bytes = Utf8.encode text →
      (∀ node ∈ file.importNodes, Utf8.IsBoundary text node.start ∧ Utf8.IsBoundary text node.stop) →
      ∃ entries, syntactic.imports file = .ok entries ∧
        List.Forall₂ file.Terminates file.importNodes entries ∧
        entries.length = file.importNodes.length ∧
        (∀ entry ∈ entries, entry.toList.getLast? = some ';') ∧
        ∀ other : SourceFile, other.importNodes.map (fun node => other.slice node.start node.stop) =
          file.importNodes.map (fun node => file.slice node.start node.stop) →
            syntactic.imports other = .ok entries := by
  refine ⟨file.map_node_importPlaces,fun _ _ => imports_eq_ok_iff,fun _ _ => imports_eq_error_iff,?_⟩
  intro text encoded boundaries
  refine ⟨_,imports_syntactic file,?_,List.length_map _,?_,?_⟩
  · rw [List.forall₂_map_right_iff,List.forall₂_same]
    intro node inside
    obtain ⟨low,high⟩ := boundaries node inside
    obtain ⟨between,same⟩ := Utf8.exists_between low high
    rw [← encoded] at same
    refine ⟨between,same,?_⟩
    rw [toList_terminated,SourceFile.text_of_encoded same,String.toList_ofList]
  · intro entry inside
    obtain ⟨node,_,rfl⟩ := List.mem_map.mp inside
    exact terminated_ends _
  · intro other same
    rw [imports_syntactic,map_terminated_text,map_terminated_text,same]

def shelfText : List Char :=
  "import 'é'\nimport r = require('r');\nimport 'é'\nexport * from 'a';\nimport b /* c */ from 'b';".toList

def shelfTree : Node :=
  ⟨"program",true,0,94,[],[⟨"import_statement",true,0,11,[],[⟨"string",true,7,11,[],[]⟩]⟩,
    ⟨"import_statement",true,12,36,[],[⟨"import_require_clause",true,19,35,[],[]⟩]⟩,
    ⟨"import_statement",true,37,48,[],[⟨"string",true,44,48,[],[]⟩]⟩,
    ⟨"export_statement",true,49,67,[],[]⟩,
    ⟨"import_statement",true,68,94,[],[⟨"comment",true,77,84,[],[]⟩]⟩]⟩

def shelfFile : SourceFile := ⟨⟨"a.ts"⟩,Utf8.encode shelfText,shelfTree⟩

theorem imports_exact_shelf :
    (∀ node ∈ shelfFile.importNodes,
      Utf8.IsBoundary shelfText node.start ∧ Utf8.IsBoundary shelfText node.stop) ∧
    ∃ entries, syntactic.imports shelfFile = .ok entries ∧
      List.Forall₂ shelfFile.Terminates shelfFile.importNodes entries ∧
      entries = ["import 'é';","import 'é';","import b /* c */ from 'b';"] := by
  have boundary (n : Nat) : Utf8.IsBoundary shelfText (Utf8.encode (shelfText.take n)).length :=
    ⟨shelfText.take n,shelfText.drop n,(List.take_append_drop n shelfText).symm,rfl⟩
  have around : ∀ node ∈ shelfFile.importNodes,
      Utf8.IsBoundary shelfText node.start ∧ Utf8.IsBoundary shelfText node.stop := by
    suffices (Utf8.IsBoundary shelfText 0 ∧ Utf8.IsBoundary shelfText 11) ∧
        (Utf8.IsBoundary shelfText 37 ∧ Utf8.IsBoundary shelfText 48) ∧
        Utf8.IsBoundary shelfText 68 ∧ Utf8.IsBoundary shelfText 94 by
      simpa [SourceFile.importNodes,shelfFile,shelfTree,Node.imports_iff] using this
    exact ⟨⟨boundary 0,boundary 10⟩,⟨boundary 36,boundary 46⟩,boundary 66,boundary 92⟩
  obtain ⟨_,_,_,known⟩ := imports_exact shelfFile
  obtain ⟨entries,passed,statements,_⟩ := known shelfText rfl around
  refine ⟨around,entries,passed,statements,?_⟩
  have computed : syntactic.imports shelfFile =
      .ok ["import 'é';","import 'é';","import b /* c */ from 'b';"] := by
    rw [imports_syntactic]
    rfl
  rw [computed] at passed
  exact (Except.ok.inj passed).symm

end Reader

end SourceAtlas
