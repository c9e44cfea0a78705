import Mathlib.Data.List.Dedup
import Mathlib.Data.List.Sort
import Mathlib.Data.String.Basic
import ArchonSearch.Graph.Upsert
import ArchonSearch.Lib.Intern
import ArchonSearch.Lib.Separator
import ArchonSearch.Py.Hexdigest
import ArchonSearch.Py.Str

/-!
# The symbols of a file

`DefRefExtractor` makes a graph of what it has read in a file: definitions, calls, imports and
base classes. A symbol is known by its name and the path of the file, and its node by a hash of
the two, which are stripped and put into lower case first. An edge is known by a hash of its ends
and its type. What the file shows is added first and tagged `extracted`; then the names that are
not defined in it are looked up in the graph of the collection, and an edge to every node that is
found is added, tagged `inferred`.

So two symbols share a node if their names differ in case only, and an edge that is added twice
keeps the second tag. A result keeps its symbols apart (`KeepsApart`) exactly if the names differ
after they were stripped and put into lower case, and no node that is found is one that the same
call or class already has an edge to (`buildResult_keepsApart_iff`). The second case comes up with
a file that is indexed again, as the base class from elsewhere has a node of the file from the
first time. That the hash tells the strings apart is taken for granted, of those that come up.
-/

namespace ArchonSearch.Graph.DefRef

open Lib Py Upsert List

/-! ### Ids -/

structure Hashing where
  /-- `str.lower`. -/
  lower : String → String
  /-- `hashlib.sha256(text.encode())`. -/
  sha256 : String → BitVec 256
  lower_ascii : ∀ s : String, (∀ c ∈ s.toList, c.toNat < 128) →
    lower s = String.ofList (s.toList.map Char.toLower)

/-- The value of an `EntityType`. -/
def entityTypeValue : EntityType → String
  | .person => "person"
  | .concept => "concept"
  | .system => "system"
  | .event => "event"
  | .codeSymbol => "code_symbol"

/-- The value of a `RelationshipType`. -/
def relationshipTypeValue : RelationshipType → String
  | .uses => "uses"
  | .implements => "implements"
  | .dependsOn => "depends_on"
  | .relatedTo => "related_to"
  | .synonymOf => "synonym_of"
  | .calls => "calls"
  | .imports => "imports"
  | .defines => "defines"
  | .inherits => "inherits"

variable (hashing : Hashing)

/-- `canonical` in `make_stable_entity_id`. -/
def canonicalEntity (entityType entityName : String) : String :=
  hashing.lower (strip entityType) ++ ":" ++ hashing.lower (strip entityName)

/-- `make_stable_entity_id`. -/
def makeStableEntityId (entityType entityName : String) : String :=
  hexdigest (hashing.sha256 (canonicalEntity hashing entityType entityName))

/-- `make_code_symbol_qualified_name`. -/
def makeCodeSymbolQualifiedName (name : String) (sourcePath : Option String) : String :=
  match sourcePath with
  | none | some "" => name
  | some path => name ++ "::" ++ path

/-- `canonical` in `make_stable_edge_id`. -/
def canonicalEdge (sourceId targetId relationshipType : String) : String :=
  sourceId ++ ":" ++ targetId ++ ":" ++ hashing.lower (strip relationshipType)

/-- `make_stable_edge_id`. -/
def makeStableEdgeId (sourceId targetId relationshipType : String) : String :=
  hexdigest (hashing.sha256 (canonicalEdge hashing sourceId targetId relationshipType))

/-- `_MODULE_ID_SENTINEL`. -/
def moduleIdSentinel : String := "<module>"

/-- `_symbol_id`. -/
def symbolId (name filePath : String) : String :=
  makeStableEntityId hashing (entityTypeValue .codeSymbol)
    (makeCodeSymbolQualifiedName name (some filePath))

/-- `_module_symbol_id`. -/
def moduleSymbolId (filePath : String) : String :=
  makeStableEntityId hashing (entityTypeValue .codeSymbol)
    (makeCodeSymbolQualifiedName moduleIdSentinel (some filePath))

/-! ### `_build_result` -/

/-- `_DefRecord`. -/
structure DefRecord where
  (name kind enclosing : String)

/-- `_CallRecord`. -/
structure CallRecord where
  (callerName calleeName : String)

/-- `_InheritsRecord`. -/
structure InheritsRecord where
  (className baseName : String)

/-- The arguments of `_build_result`. -/
structure FileRecords where
  (moduleName filePath langLabel : String)
  defs : List DefRecord
  calls : List CallRecord
  imports : List String
  inherits : List InheritsRecord
  (docId collection ns : String)

variable {ε ρ : Type*}

/-- `nodes` and `edges`. -/
structure Assembly (ε ρ : Type*) where
  nodes : Keyed (GraphNode.id : GraphNode ε ρ → String)
  edges : Keyed GraphEdge.id

/-- A `GraphExtractionResult`; there are no mentions in one of these. -/
structure GraphExtractionResult (ε ρ : Type*) where
  nodes : List (GraphNode ε ρ)
  edges : List GraphEdge

variable (file : FileRecords)

/-- `defined_names`. -/
def definedNames : List String := file.defs.map DefRecord.name

/-- The node that `node_for` makes. -/
def symbolNode (name subtype : String) : GraphNode ε ρ where
  id := symbolId hashing name file.filePath
  entityName := name
  entityType := .codeSymbol
  sourceDocId := file.docId
  collectionName := file.collection
  entitySubtype := some subtype
  nameEmbedding := none
  pagerankScore := none
  sourcePath := some file.filePath

/-- The node that `module_node_for` makes. -/
def moduleNode : GraphNode ε ρ where
  id := moduleSymbolId hashing file.filePath
  entityName := file.moduleName
  entityType := .codeSymbol
  sourceDocId := file.docId
  collectionName := file.collection
  entitySubtype := some (file.langLabel ++ "-defref-module")
  nameEmbedding := none
  pagerankScore := none
  sourcePath := some file.filePath

def Assembly.node (a : Assembly ε ρ) (n : GraphNode ε ρ) : GraphNode ε ρ × Assembly ε ρ :=
  let nodes := a.nodes.setDefault n
  ((nodes.get? n.id).getD n, { a with nodes := nodes })

/-- `node_for`. -/
def nodeFor (a : Assembly ε ρ) (name subtype : String) : GraphNode ε ρ × Assembly ε ρ :=
  a.node (symbolNode hashing file name subtype)

/-- `module_node_for`. -/
def moduleNodeFor (a : Assembly ε ρ) : GraphNode ε ρ × Assembly ε ρ :=
  a.node (moduleNode hashing file)

/-- `scoped_node_for`. -/
def scopedNodeFor (a : Assembly ε ρ) (scopeName subtype : String) :
    GraphNode ε ρ × Assembly ε ρ :=
  if scopeName = "" then moduleNodeFor hashing file a else nodeFor hashing file a scopeName subtype

/-- `_EXTRACTION_METHOD`. -/
def extractionMethod : String := "extracted"

/-- `_INFERRED_EXTRACTION_METHOD`. -/
def inferredExtractionMethod : String := "inferred"

/-- `add_edge`. -/
def Assembly.addEdge (a : Assembly ε ρ) (sourceId targetId : String) (rel : RelationshipType)
    (method : String) : Assembly ε ρ :=
  { a with
    edges := Upsert.addEdge
      (fun s t r => makeStableEdgeId hashing s t (relationshipTypeValue r)) file.docId a.edges
      sourceId targetId rel method }

/-- The loop over `defs`. -/
def addDef (a : Assembly ε ρ) (d : DefRecord) : Assembly ε ρ :=
  let (enclosingNode, a) := scopedNodeFor hashing file a d.enclosing (file.langLabel ++ "-class")
  let (definedNode, a) := nodeFor hashing file a d.name (file.langLabel ++ "-" ++ d.kind)
  a.addEdge hashing file enclosingNode.id definedNode.id .defines extractionMethod

/-- The loop over `calls`, with `unresolved_calls`. -/
def addCall (r : Assembly ε ρ × List (String × String)) (c : CallRecord) :
    Assembly ε ρ × List (String × String) :=
  if c.calleeName ∈ definedNames file then
    let (callerNode, a) :=
      scopedNodeFor hashing file r.1 c.callerName (file.langLabel ++ "-symbol")
    let (calleeNode, a) := nodeFor hashing file a c.calleeName (file.langLabel ++ "-symbol")
    (a.addEdge hashing file callerNode.id calleeNode.id .calls extractionMethod, r.2)
  else
    let (callerNode, a) :=
      scopedNodeFor hashing file r.1 c.callerName (file.langLabel ++ "-symbol")
    (a, r.2 ++ [(callerNode.id, c.calleeName)])

/-- The loop over `imports`. -/
def addImport (moduleNodeId : String) (a : Assembly ε ρ) (importedName : String) :
    Assembly ε ρ :=
  let (importedNode, a) := nodeFor hashing file a importedName (file.langLabel ++ "-import")
  a.addEdge hashing file moduleNodeId importedNode.id .imports extractionMethod

/-- The loop over `inherits`, with `unresolved_inherits`. -/
def addInherits (r : Assembly ε ρ × List (String × String)) (i : InheritsRecord) :
    Assembly ε ρ × List (String × String) :=
  let (classNode, a) := nodeFor hashing file r.1 i.className (file.langLabel ++ "-class")
  let (baseNode, a) := nodeFor hashing file a i.baseName (file.langLabel ++ "-symbol")
  let a := a.addEdge hashing file classNode.id baseNode.id .inherits extractionMethod
  if i.baseName ∉ definedNames file then (a, r.2 ++ [(classNode.id, i.baseName)]) else (a, r.2)

/-- `names_needed`. -/
def namesNeeded (unresolvedCalls unresolvedInherits : List (String × String)) : List String :=
  ((unresolvedCalls.map Prod.snd ++ unresolvedInherits.map Prod.snd).dedup).insertionSort (· ≤ ·)

def isCandidate (n : GraphNode ε ρ) : Bool :=
  n.entityType = .codeSymbol && n.entitySubtype.all fun subtype =>
    !("-import".toList.isSuffixOf subtype.toList) &&
      !("-defref-module".toList.isSuffixOf subtype.toList)

/-- `candidates_by_name.get(name, [])`. -/
def candidatesByName (found : List (GraphNode ε ρ)) (name : String) : List (GraphNode ε ρ) :=
  (found.filter isCandidate).filter fun n => n.entityName = name

/-- The loop over `unresolved_calls` or `unresolved_inherits`. -/
def addInferred (found : List (GraphNode ε ρ)) (rel : RelationshipType) (a : Assembly ε ρ)
    (unresolved : List (String × String)) : Assembly ε ρ :=
  unresolved.foldl (fun a u => (candidatesByName found u.2).foldl (fun a n =>
    a.addEdge hashing file u.1 n.id rel inferredExtractionMethod) a) a

/-- `GraphExtractionResult(nodes=list(nodes.values()), edges=list(edges.values()))`. -/
def Assembly.result (a : Assembly ε ρ) : GraphExtractionResult ε ρ where
  nodes := a.nodes.items
  edges := a.edges.items

/-- `_build_result`, with `find_nodes_by_name` of the graph store, which may fail. -/
def buildResult
    (findNodesByName : String → List String → String → Option (List (GraphNode ε ρ))) :
    Option (GraphExtractionResult ε ρ) :=
  let (moduleNode, a) := moduleNodeFor hashing file ⟨.empty, .empty⟩
  let a := file.defs.foldl (addDef hashing file) a
  let (a, unresolvedCalls) := file.calls.foldl (addCall hashing file) (a, [])
  let a := file.imports.foldl (addImport hashing file moduleNode.id) a
  let (a, unresolvedInherits) := file.inherits.foldl (addInherits hashing file) (a, [])
  let names := namesNeeded unresolvedCalls unresolvedInherits
  if names = [] then some a.result
  else (findNodesByName file.collection names file.ns).map fun found =>
    let a := addInferred hashing file found .calls a unresolvedCalls
    (addInferred hashing file found .inherits a unresolvedInherits).result

/-! ### What a file shows -/

/-- The symbol that a scope names; `none` is the module. -/
def scopeSymbol (scopeName : String) : Option String :=
  if scopeName = "" then none else some scopeName

structure Link where
  (source target : Option String)
  rel : RelationshipType

structure Reference where
  source : Option String
  name : String

def defSymbols (d : DefRecord) : List (Option String × String) :=
  [(scopeSymbol d.enclosing, file.langLabel ++ "-class"),
    (some d.name, file.langLabel ++ "-" ++ d.kind)]

def defLink (d : DefRecord) : Link := ⟨scopeSymbol d.enclosing, some d.name, .defines⟩

def callSymbols (c : CallRecord) : List (Option String × String) :=
  (scopeSymbol c.callerName, file.langLabel ++ "-symbol") ::
    if c.calleeName ∈ definedNames file then [(some c.calleeName, file.langLabel ++ "-symbol")]
    else []

def callLinks (c : CallRecord) : List Link :=
  if c.calleeName ∈ definedNames file then
    [⟨scopeSymbol c.callerName, some c.calleeName, .calls⟩] else []

def callReferences (c : CallRecord) : List Reference :=
  if c.calleeName ∈ definedNames file then [] else [⟨scopeSymbol c.callerName, c.calleeName⟩]

def importSymbol (importedName : String) : Option String × String :=
  (some importedName, file.langLabel ++ "-import")

def importLink (importedName : String) : Link := ⟨none, some importedName, .imports⟩

def inheritsSymbols (i : InheritsRecord) : List (Option String × String) :=
  [(some i.className, file.langLabel ++ "-class"), (some i.baseName, file.langLabel ++ "-symbol")]

def inheritsLink (i : InheritsRecord) : Link := ⟨some i.className, some i.baseName, .inherits⟩

def inheritsReferences (i : InheritsRecord) : List Reference :=
  if i.baseName ∈ definedNames file then [] else [⟨some i.className, i.baseName⟩]

def requests : List (Option String × String) :=
  (none, file.langLabel ++ "-defref-module") :: (file.defs.flatMap (defSymbols file) ++
    file.calls.flatMap (callSymbols file) ++ file.imports.map (importSymbol file) ++
    file.inherits.flatMap (inheritsSymbols file))

def links : List Link :=
  file.defs.map defLink ++ file.calls.flatMap (callLinks file) ++ file.imports.map importLink ++
    file.inherits.map inheritsLink

def references : RelationshipType → List Reference
  | .calls => file.calls.flatMap (callReferences file)
  | .inherits => file.inherits.flatMap (inheritsReferences file)
  | _ => []

/-! ### What is added -/

def canonical (filePath : String) (symbol : Option String) : String :=
  canonicalEntity hashing (entityTypeValue .codeSymbol)
    (makeCodeSymbolQualifiedName (symbol.getD moduleIdSentinel) (some filePath))

def idOf (symbol : Option String) : String :=
  hexdigest (hashing.sha256 (canonical hashing file.filePath symbol))

def nodeOf (request : Option String × String) : GraphNode ε ρ :=
  match request.1 with
  | none => moduleNode hashing file
  | some name => symbolNode hashing file name request.2

def edge (sourceId targetId : String) (rel : RelationshipType) (method : String) : GraphEdge where
  id := makeStableEdgeId hashing sourceId targetId (relationshipTypeValue rel)
  sourceNodeId := sourceId
  targetNodeId := targetId
  relationshipType := rel
  sourceDocId := file.docId
  extractionMethod := some method

def linkEdge (l : Link) : GraphEdge :=
  edge hashing file (idOf hashing file l.source) (idOf hashing file l.target) l.rel extractionMethod

def inferredEdges (found : List (GraphNode ε ρ)) (rel : RelationshipType) (r : Reference) :
    List GraphEdge :=
  (candidatesByName found r.name).map fun n =>
    edge hashing file (idOf hashing file r.source) n.id rel inferredExtractionMethod

def queued (r : Reference) : String × String := (idOf hashing file r.source, r.name)

variable {hashing file}

@[simp] theorem id_nodeOf (request : Option String × String) :
    (nodeOf hashing file request : GraphNode ε ρ).id = idOf hashing file request.1 := by
  match request with
  | (none, _) => rfl
  | (some _, _) => rfl

variable (hashing file) in
def Assembly.extend (a : Assembly ε ρ) (requests : List (Option String × String))
    (edges : List GraphEdge) : Assembly ε ρ where
  nodes := (requests.map (nodeOf hashing file)).foldl Keyed.setDefault a.nodes
  edges := edges.foldl Keyed.insert a.edges

theorem Assembly.extend_extend (a : Assembly ε ρ) (qs qs' : List (Option String × String))
    (es es' : List GraphEdge) :
    (a.extend hashing file qs es).extend hashing file qs' es' =
      a.extend hashing file (qs ++ qs') (es ++ es') := by
  simp [extend]

theorem Assembly.id_node (a : Assembly ε ρ) (n : GraphNode ε ρ) : (a.node n).1.id = n.id := by
  show ((a.nodes.setDefault n).get? n.id |>.getD n).id = n.id
  rw [Keyed.get?_setDefault, if_pos rfl]
  cases hg : a.nodes.get? n.id with
  | none => rfl
  | some m => exact (Keyed.get?_eq_some_iff.mp hg).2

@[simp] theorem nodeFor_id (a : Assembly ε ρ) (name subtype : String) :
    (nodeFor hashing file a name subtype).1.id = idOf hashing file (some name) :=
  a.id_node _

@[simp] theorem scopedNodeFor_id (a : Assembly ε ρ) (scopeName subtype : String) :
    (scopedNodeFor hashing file a scopeName subtype).1.id =
      idOf hashing file (scopeSymbol scopeName) := by
  unfold scopedNodeFor scopeSymbol
  split_ifs
  · exact a.id_node _
  · exact a.id_node _

@[simp] theorem scopedNodeFor_snd (a : Assembly ε ρ) (scopeName subtype : String) :
    (scopedNodeFor hashing file a scopeName subtype).2 =
      a.extend hashing file [(scopeSymbol scopeName, subtype)] [] := by
  unfold scopedNodeFor scopeSymbol
  split_ifs
  · rfl
  · rfl

theorem Assembly.addEdge_eq (a : Assembly ε ρ) (sourceId targetId : String)
    (rel : RelationshipType) (method : String) :
    a.addEdge hashing file sourceId targetId rel method =
      a.extend hashing file [] [edge hashing file sourceId targetId rel method] := rfl

theorem addDef_eq (a : Assembly ε ρ) (d : DefRecord) :
    addDef hashing file a d =
      a.extend hashing file (defSymbols file d) [linkEdge hashing file (defLink d)] := by
  unfold addDef
  simp only [nodeFor_id, scopedNodeFor_id, scopedNodeFor_snd, Assembly.addEdge_eq]
  rfl

theorem addCall_eq (a : Assembly ε ρ) (q : List (String × String)) (c : CallRecord) :
    addCall hashing file (a, q) c =
      (a.extend hashing file (callSymbols file c) ((callLinks file c).map (linkEdge hashing file)),
        q ++ (callReferences file c).map (queued hashing file)) := by
  unfold addCall callSymbols callLinks callReferences
  split_ifs
  · simp only [nodeFor_id, scopedNodeFor_id, scopedNodeFor_snd, Assembly.addEdge_eq, map_nil,
      append_nil]
    rfl
  · simp only [scopedNodeFor_id, scopedNodeFor_snd]
    rfl

theorem addImport_eq (a : Assembly ε ρ) (importedName : String) :
    addImport hashing file (idOf hashing file none) a importedName =
      a.extend hashing file [importSymbol file importedName]
        [linkEdge hashing file (importLink importedName)] := by
  unfold addImport
  simp only [nodeFor_id, Assembly.addEdge_eq]
  rfl

theorem addInherits_eq (a : Assembly ε ρ) (q : List (String × String)) (i : InheritsRecord) :
    addInherits hashing file (a, q) i =
      (a.extend hashing file (inheritsSymbols file i) [linkEdge hashing file (inheritsLink i)],
        q ++ (inheritsReferences file i).map (queued hashing file)) := by
  unfold addInherits inheritsReferences
  simp only [nodeFor_id, Assembly.addEdge_eq, ite_not]
  split_ifs
  · exact congrArg (Prod.mk _) (append_nil q).symm
  · rfl

theorem flatMap_nil {γ δ : Type*} (l : List γ) : (l.flatMap fun _ => ([] : List δ)) = [] :=
  flatMap_eq_nil_iff.mpr fun _ _ => rfl

/-- A loop, each pass of which extends what was assembled. -/
theorem foldl_extend {γ : Type*} {pass : Assembly ε ρ → γ → Assembly ε ρ}
    {qs : γ → List (Option String × String)} {es : γ → List GraphEdge}
    (h : ∀ a x, pass a x = a.extend hashing file (qs x) (es x)) (l : List γ) (a : Assembly ε ρ) :
    l.foldl pass a = a.extend hashing file (l.flatMap qs) (l.flatMap es) := by
  induction l generalizing a with
  | nil => rfl
  | cons x l ih =>
    rw [foldl_cons, ih, h, Assembly.extend_extend, flatMap_cons, flatMap_cons]

/-- A loop which also queues what it could not resolve. -/
theorem foldl_extend_queue {γ υ : Type*}
    {pass : Assembly ε ρ × List υ → γ → Assembly ε ρ × List υ}
    {qs : γ → List (Option String × String)} {es : γ → List GraphEdge} {us : γ → List υ}
    (h : ∀ a q x, pass (a, q) x = (a.extend hashing file (qs x) (es x), q ++ us x)) (l : List γ)
    (a : Assembly ε ρ) (q : List υ) :
    l.foldl pass (a, q) =
      (a.extend hashing file (l.flatMap qs) (l.flatMap es), q ++ l.flatMap us) := by
  induction l generalizing a q with
  | nil => exact congrArg (Prod.mk a) (append_nil q).symm
  | cons x l ih =>
    rw [foldl_cons, h, ih, Assembly.extend_extend, flatMap_cons, flatMap_cons,
      flatMap_cons, append_assoc]

theorem addInferred_eq (found : List (GraphNode ε ρ)) (rel : RelationshipType)
    (a : Assembly ε ρ) (rs : List Reference) :
    addInferred hashing file found rel a (rs.map (queued hashing file)) =
      a.extend hashing file [] (rs.flatMap (inferredEdges hashing file found rel)) := by
  have hcan (a : Assembly ε ρ) (r : Reference) :
      (candidatesByName found (queued hashing file r).2).foldl (fun a n =>
        a.addEdge hashing file (queued hashing file r).1 n.id rel inferredExtractionMethod) a =
        a.extend hashing file [] (inferredEdges hashing file found rel r) := by
    rw [foldl_extend fun a (n : GraphNode ε ρ) =>
      a.addEdge_eq (queued hashing file r).1 n.id rel inferredExtractionMethod, flatMap_nil,
      inferredEdges, map_eq_flatMap]
    rfl
  rw [addInferred, foldl_map, foldl_extend hcan, flatMap_nil]

/-! ### The result -/

variable (hashing file)

def foundNodes
    (findNodesByName : String → List String → String → Option (List (GraphNode ε ρ))) :
    Option (List (GraphNode ε ρ)) :=
  let names := namesNeeded ((references file .calls).map (queued hashing file))
    ((references file .inherits).map (queued hashing file))
  if names = [] then some [] else findNodesByName file.collection names file.ns

def allInferredEdges (found : List (GraphNode ε ρ)) : List GraphEdge :=
  (references file .calls).flatMap (inferredEdges hashing file found .calls) ++
    (references file .inherits).flatMap (inferredEdges hashing file found .inherits)

def addedEdges (found : List (GraphNode ε ρ)) : List GraphEdge :=
  (links file).map (linkEdge hashing file) ++ allInferredEdges hashing file found

def resultOf (found : List (GraphNode ε ρ)) : GraphExtractionResult ε ρ where
  nodes := (Keyed.interned ((requests file).map (nodeOf hashing file)) : Keyed GraphNode.id).items
  edges := (Keyed.ofList (addedEdges hashing file found) : Keyed GraphEdge.id).items

variable {hashing file}

theorem namesNeeded_eq_nil_iff {calls inherits : List (String × String)} :
    namesNeeded calls inherits = [] ↔ calls = [] ∧ inherits = [] := by
  have hded (l : List String) : l.dedup = [] ↔ l = [] := l.dedup_eq_nil
  rw [namesNeeded, ← length_eq_zero_iff, length_insertionSort, length_eq_zero_iff,
    hded, append_eq_nil_iff, map_eq_nil_iff, map_eq_nil_iff]

/-- **What the loops assemble**, in terms of the file alone. -/
theorem buildResult_eq
    (findNodesByName : String → List String → String → Option (List (GraphNode ε ρ))) :
    buildResult hashing file findNodesByName =
      (foundNodes hashing file findNodesByName).map (resultOf hashing file) := by
  have hmod : (moduleNodeFor hashing file (⟨.empty, .empty⟩ : Assembly ε ρ)).1.id =
      idOf hashing file none := Assembly.id_node _ _
  have hst : (moduleNodeFor hashing file (⟨.empty, .empty⟩ : Assembly ε ρ)).2 =
      (⟨.empty, .empty⟩ : Assembly ε ρ).extend hashing file
        [(none, file.langLabel ++ "-defref-module")] [] := rfl
  have hres (found : List (GraphNode ε ρ)) : resultOf hashing file found =
      ((⟨.empty, .empty⟩ : Assembly ε ρ).extend hashing file (requests file)
        (addedEdges hashing file found)).result := rfl
  unfold buildResult foundNodes
  have hcs : file.calls.flatMap (callReferences file) = references file .calls := rfl
  have hinh : file.inherits.flatMap (inheritsReferences file) = references file .inherits :=
    rfl
  simp only [hmod, hst, foldl_extend addDef_eq, foldl_extend_queue addCall_eq,
    foldl_extend addImport_eq, foldl_extend_queue addInherits_eq, nil_append,
    ← map_flatMap, Assembly.extend_extend, hcs, hinh, addInferred_eq]
  split_ifs with hnms
  · obtain ⟨hcs, hinh⟩ := namesNeeded_eq_nil_iff.mp hnms
    rw [map_eq_nil_iff] at hcs hinh
    rw [Option.map_some, hres, addedEdges, allInferredEdges, hcs, hinh]
    simp [requests, links, map_eq_flatMap, flatMap_assoc]
  · refine Option.map_congr fun found _ => ?_
    rw [hres]
    simp [requests, links, addedEdges, allInferredEdges, map_eq_flatMap, flatMap_assoc]

/-! ### What a result is to keep apart -/

variable (hashing file)

def symbolNames : List String :=
  file.defs.map DefRecord.name ++
    (file.defs.map DefRecord.enclosing ++ file.calls.map CallRecord.callerName).filter (· ≠ "") ++
    file.imports ++ file.inherits.map InheritsRecord.className ++
    file.inherits.map InheritsRecord.baseName

def symbols : List (Option String) := none :: (symbolNames file).map some

/-- No edge that the file shows is tagged `inferred`. -/
def NoLinkInferred (r : GraphExtractionResult ε ρ) : Prop :=
  ∀ e ∈ r.edges, ∀ l ∈ links file, e.sourceNodeId = idOf hashing file l.source →
    e.targetNodeId = idOf hashing file l.target → e.relationshipType = l.rel →
    e.extractionMethod ≠ some inferredExtractionMethod

/-- **A result keeps symbols apart**, for the nodes that the graph store has found. -/
structure KeepsApart (found : List (GraphNode ε ρ)) (r : GraphExtractionResult ε ρ) : Prop where
  moduleNode : ∃! n, n ∈ r.nodes ∧ n.id = moduleSymbolId hashing file.filePath
  symbolNode : ∀ name ∈ symbolNames file,
    ∃! n, n ∈ r.nodes ∧ n.id ≠ moduleSymbolId hashing file.filePath ∧ n.entityName = name
  nodes : ∀ n ∈ r.nodes, n.id = moduleSymbolId hashing file.filePath ∨
    n.entityName ∈ symbolNames file
  ends : ∀ e ∈ r.edges, e.sourceNodeId ∈ r.nodes.map GraphNode.id ∧
    (e.targetNodeId ∈ r.nodes.map GraphNode.id ∨ e.targetNodeId ∈ found.map GraphNode.id)
  calls : ∀ c ∈ file.calls, c.calleeName ∈ definedNames file →
    ∃ e ∈ r.edges, e.sourceNodeId = idOf hashing file (scopeSymbol c.callerName) ∧
      e.relationshipType = .calls ∧ e.extractionMethod = some extractionMethod ∧
      ∃ n ∈ r.nodes, n.id = e.targetNodeId ∧ n.id ≠ moduleSymbolId hashing file.filePath ∧
        n.entityName = c.calleeName
  /-- What the file shows is not tagged `inferred`. -/
  shown : NoLinkInferred hashing file r

/-- **What keeps symbols apart**: what is hashed for two of them is different, and no node that
was found for a name is one that the file shows the same symbol with. -/
structure Distinguishable (found : List (GraphNode ε ρ)) : Prop where
  canonical : Set.InjOn (canonical hashing file.filePath) {x | x ∈ symbols file}
  found : ∀ l ∈ links file, ∀ r ∈ references file l.rel, r.source = l.source →
    ∀ n ∈ candidatesByName found r.name, n.id ≠ idOf hashing file l.target

def hashed (found : List (GraphNode ε ρ)) : List String :=
  (symbols file).map (canonical hashing file.filePath) ++
    (addedEdges hashing file found).map fun e =>
      canonicalEdge hashing e.sourceNodeId e.targetNodeId (relationshipTypeValue e.relationshipType)

/-- Different texts of the list have different hashes. -/
def CollisionFree (strings : List String) : Prop :=
  ∀ s ∈ strings, ∀ t ∈ strings, hashing.sha256 s = hashing.sha256 t → s = t

variable {hashing file}

instance (found : List (GraphNode ε ρ)) : Decidable (Distinguishable hashing file found) :=
  decidable_of_iff ((∀ x ∈ symbols file, ∀ y ∈ symbols file,
      DefRef.canonical hashing file.filePath x = DefRef.canonical hashing file.filePath y → x = y) ∧
      ∀ l ∈ links file, ∀ r ∈ references file l.rel, r.source = l.source →
        ∀ n ∈ candidatesByName found r.name, n.id ≠ idOf hashing file l.target)
    ⟨fun h => ⟨fun _ hx _ hy hxy => h.1 _ hx _ hy hxy, h.2⟩,
      fun h => ⟨fun _ hx _ hy hxy => h.canonical hx hy hxy, h.found⟩⟩

theorem scopeSymbol_eq_some_iff {scopeName name : String} :
    scopeSymbol scopeName = some name ↔ scopeName = name ∧ name ≠ "" := by
  unfold scopeSymbol
  split_ifs with h
  · subst h
    simp
  · simp only [Option.some.injEq]
    exact ⟨fun hnm => ⟨hnm, hnm ▸ h⟩, And.left⟩

variable {name : String}

theorem mem_defSymbols_iff :
    some name ∈ (file.defs.flatMap (defSymbols file)).map Prod.fst ↔
      (∃ d ∈ file.defs, d.enclosing = name) ∧ name ≠ "" ∨ name ∈ definedNames file := by
  simp [defSymbols, eq_comm (a := some name), scopeSymbol_eq_some_iff, and_or_left, exists_or,
    definedNames, ← and_assoc]

theorem mem_callSymbols_iff :
    some name ∈ (file.calls.flatMap (callSymbols file)).map Prod.fst ↔
      (∃ c ∈ file.calls, c.callerName = name) ∧ name ≠ "" ∨
        ∃ c ∈ file.calls, c.calleeName ∈ definedNames file ∧ c.calleeName = name := by
  have hcal (c : CallRecord) : some name ∈ (if c.calleeName ∈ definedNames file then
      [(some c.calleeName, file.langLabel ++ "-symbol")] else []).map Prod.fst ↔
        c.calleeName ∈ definedNames file ∧ c.calleeName = name := by
    split_ifs with h
    · simp [h, eq_comm]
    · simp [h]
  simp [callSymbols, eq_comm (a := some name), scopeSymbol_eq_some_iff, and_or_left, exists_or,
    ← and_assoc]

theorem mem_inheritsSymbols_iff :
    some name ∈ (file.inherits.flatMap (inheritsSymbols file)).map Prod.fst ↔
      (∃ i ∈ file.inherits, i.className = name) ∨ ∃ i ∈ file.inherits, i.baseName = name := by
  simp [inheritsSymbols, eq_comm (a := some name), and_or_left, exists_or]

variable {x : Option String}

/-- A node is asked for exactly for the symbols of the file. -/
theorem mem_symbols_iff :
    x ∈ symbols file ↔ x ∈ (requests file).map Prod.fst := by
  cases x with
  | none => simp [symbols, requests]
  | some name =>
    have himp : some name ∈ (file.imports.map (importSymbol file)).map Prod.fst ↔
        name ∈ file.imports := by
      simp [importSymbol]
    have hnms : some name ∈ symbols file ↔ name ∈ definedNames file ∨
        ((∃ d ∈ file.defs, d.enclosing = name) ∨ ∃ c ∈ file.calls, c.callerName = name) ∧
          name ≠ "" ∨ name ∈ file.imports ∨ (∃ i ∈ file.inherits, i.className = name) ∨
            ∃ i ∈ file.inherits, i.baseName = name := by
      simp [symbols, symbolNames, definedNames, or_and_right, or_assoc]
    have hcal : (∃ c ∈ file.calls, c.calleeName ∈ definedNames file ∧ c.calleeName = name) →
        name ∈ definedNames file := by
      rintro ⟨c, -, hm, rfl⟩
      exact hm
    rw [hnms, requests, map_cons, mem_cons, map_append, map_append,
      map_append, mem_append, mem_append, mem_append, mem_defSymbols_iff,
      mem_callSymbols_iff, himp, mem_inheritsSymbols_iff]
    constructor
    · rintro (h | ⟨h | h, hne⟩ | h | h)
      · exact Or.inr (Or.inl (Or.inl (Or.inl (Or.inr h))))
      · exact Or.inr (Or.inl (Or.inl (Or.inl (Or.inl ⟨h, hne⟩))))
      · exact Or.inr (Or.inl (Or.inl (Or.inr (Or.inl ⟨h, hne⟩))))
      · exact Or.inr (Or.inl (Or.inr h))
      · exact Or.inr (Or.inr h)
    · rintro (h | ((((⟨h, hne⟩ | h) | ⟨h, hne⟩ | h) | h) | h))
      · cases h
      · exact Or.inr (Or.inl ⟨Or.inl h, hne⟩)
      · exact Or.inl h
      · exact Or.inr (Or.inl ⟨Or.inr h, hne⟩)
      · exact Or.inl (hcal h)
      · exact Or.inr (Or.inr (Or.inl h))
      · exact Or.inr (Or.inr (Or.inr h))

/-! ### Nodes -/

def nodeSymbol (hashing : Hashing) (file : FileRecords) (n : GraphNode ε ρ) : Option String :=
  if n.id = moduleSymbolId hashing file.filePath then none else some n.entityName

variable {n : GraphNode ε ρ}

theorem nodeSymbol_eq_none_iff :
    nodeSymbol hashing file n = none ↔ n.id = moduleSymbolId hashing file.filePath := by
  unfold nodeSymbol
  split_ifs with h
  · simp [h]
  · simp [h]

theorem nodeSymbol_eq_some_iff :
    nodeSymbol hashing file n = some name ↔
      n.id ≠ moduleSymbolId hashing file.filePath ∧ n.entityName = name := by
  unfold nodeSymbol
  split_ifs with h
  · simp [h]
  · simp [h]

variable {found : List (GraphNode ε ρ)}

variable (found) in
theorem mem_nodes_iff : n ∈ (resultOf hashing file found).nodes ↔
    n ∈ (Keyed.interned ((requests file).map (nodeOf hashing file)) :
      Keyed (GraphNode.id : GraphNode ε ρ → String)) := Iff.rfl

/-- A node has the id of its symbol, which is one of the file. -/
theorem nodeSymbol_of_mem_nodes
    (h : n ∈ (resultOf hashing file found).nodes) :
    nodeSymbol hashing file n ∈ symbols file ∧
      n.id = idOf hashing file (nodeSymbol hashing file n) := by
  by_cases hmod : n.id = moduleSymbolId hashing file.filePath
  · rw [nodeSymbol_eq_none_iff.mpr hmod]
    exact ⟨mem_cons_self, hmod⟩
  · obtain ⟨⟨x, subtype⟩, hq, rfl⟩ :=
      mem_map.mp (Keyed.mem_of_mem_interned ((mem_nodes_iff found).mp h))
    have hsym :
        nodeSymbol hashing file (nodeOf hashing file (x, subtype) : GraphNode ε ρ) = x := by
      cases x with
      | none => exact absurd (id_nodeOf (none, subtype)) hmod
      | some name => exact nodeSymbol_eq_some_iff.mpr ⟨hmod, rfl⟩
    rw [hsym, id_nodeOf]
    exact ⟨mem_symbols_iff.mpr (mem_map_of_mem hq), rfl⟩

variable (found) in
theorem exists_mem_nodes (h : x ∈ symbols file) :
    ∃ n ∈ (resultOf hashing file found).nodes, n.id = idOf hashing file x := by
  obtain ⟨q, hq, rfl⟩ := mem_map.mp (mem_symbols_iff.mp h)
  have hm : (nodeOf hashing file q : GraphNode ε ρ) ∈ (requests file).map (nodeOf hashing file) :=
    mem_map_of_mem hq
  obtain ⟨n, hn, hid⟩ : ∃ n ∈ (resultOf hashing file found).nodes,
      n.id = (nodeOf hashing file q : GraphNode ε ρ).id := Keyed.exists_mem_interned hm
  exact ⟨n, hn, hid.trans (id_nodeOf q)⟩

variable (found) in
theorem idOf_mem_map_id (h : x ∈ symbols file) :
    idOf hashing file x ∈ (resultOf hashing file found).nodes.map GraphNode.id := by
  obtain ⟨n, hn, hid⟩ := exists_mem_nodes found h
  exact mem_map.mpr ⟨n, hn, hid⟩

variable (found) in
/-- **Each symbol has one node** exactly if the ids tell the symbols apart. -/
theorem existsUnique_node_iff :
    (∀ x ∈ symbols file, ∃! n, n ∈ (resultOf hashing file found).nodes ∧
      nodeSymbol hashing file n = x) ↔ Set.InjOn (idOf hashing file) {x | x ∈ symbols file} :=
  Keyed.existsUnique_name_iff (fun _ hn => nodeSymbol_of_mem_nodes
    ((mem_nodes_iff found).mpr hn)) fun _ hx => exists_mem_nodes found hx

/-! ### Edges -/

variable {e : GraphEdge}

theorem mem_allInferredEdges_iff : e ∈ allInferredEdges hashing file found ↔
    ∃ rel, ∃ r ∈ references file rel, ∃ n ∈ candidatesByName found r.name,
      e = edge hashing file (idOf hashing file r.source) n.id rel inferredExtractionMethod := by
  simp only [allInferredEdges, mem_append, mem_flatMap, inferredEdges, mem_map]
  constructor
  · rintro (⟨r, hr, n, hn, rfl⟩ | ⟨r, hr, n, hn, rfl⟩)
    · exact ⟨.calls, r, hr, n, hn, rfl⟩
    · exact ⟨.inherits, r, hr, n, hn, rfl⟩
  · rintro ⟨rel, r, hr, n, hn, rfl⟩
    match rel, hr with
    | .calls, hr => exact Or.inl ⟨r, hr, n, hn, rfl⟩
    | .inherits, hr => exact Or.inr ⟨r, hr, n, hn, rfl⟩

theorem some_mem_symbols_iff :
    some name ∈ symbols file ↔ name ∈ symbolNames file := by
  simp [symbols]

theorem scopeSymbol_mem_symbols {scopeName : String}
    (h : scopeName ∈ file.defs.map DefRecord.enclosing ++ file.calls.map CallRecord.callerName) :
    scopeSymbol scopeName ∈ symbols file := by
  unfold scopeSymbol
  split_ifs with hemp
  · exact mem_cons_self
  · rw [some_mem_symbols_iff]
    simp only [symbolNames, mem_append]
    exact Or.inl (Or.inl (Or.inl (Or.inr (mem_filter.mpr ⟨h, by simpa using hemp⟩))))

theorem some_mem_symbols_of_mem_definedNames (h : name ∈ definedNames file) :
    some name ∈ symbols file := by
  rw [some_mem_symbols_iff]
  simp only [symbolNames, mem_append]
  exact Or.inl (Or.inl (Or.inl (Or.inl h)))

theorem className_mem_symbols {i : InheritsRecord} (h : i ∈ file.inherits) :
    some i.className ∈ symbols file := by
  rw [some_mem_symbols_iff]
  simp only [symbolNames, mem_append]
  exact Or.inl (Or.inr (mem_map_of_mem h))

theorem mem_symbols_of_mem_links {l : Link} (h : l ∈ links file) :
    l.source ∈ symbols file ∧ l.target ∈ symbols file := by
  simp only [links, mem_append, mem_map, mem_flatMap] at h
  rcases h with ((⟨d, hd, rfl⟩ | ⟨c, hc, hl⟩) | ⟨name, hnm, rfl⟩) | ⟨i, hi, rfl⟩
  · refine ⟨scopeSymbol_mem_symbols ?_, some_mem_symbols_of_mem_definedNames (mem_map_of_mem hd)⟩
    exact mem_append_left _ (mem_map_of_mem hd)
  · unfold callLinks at hl
    split_ifs at hl with hdef
    · obtain rfl := mem_singleton.mp hl
      refine ⟨scopeSymbol_mem_symbols ?_, some_mem_symbols_of_mem_definedNames hdef⟩
      exact mem_append_right _ (mem_map_of_mem hc)
    · cases hl
  · refine ⟨mem_cons_self, some_mem_symbols_iff.mpr ?_⟩
    simp only [symbolNames, mem_append]
    exact Or.inl (Or.inl (Or.inr hnm))
  · refine ⟨className_mem_symbols hi, some_mem_symbols_iff.mpr ?_⟩
    simp only [symbolNames, mem_append]
    exact Or.inr (mem_map_of_mem hi)

theorem source_mem_symbols_of_mem_references {rel : RelationshipType} {r : Reference}
    (h : r ∈ references file rel) : r.source ∈ symbols file := by
  match rel, h with
  | .calls, h =>
    obtain ⟨c, hc, hr⟩ := mem_flatMap.mp h
    unfold callReferences at hr
    split_ifs at hr
    · cases hr
    · obtain rfl := mem_singleton.mp hr
      exact scopeSymbol_mem_symbols (mem_append_right _ (mem_map_of_mem hc))
  | .inherits, h =>
    obtain ⟨i, hi, hr⟩ := mem_flatMap.mp h
    unfold inheritsReferences at hr
    split_ifs at hr
    · cases hr
    · obtain rfl := mem_singleton.mp hr
      exact className_mem_symbols hi

/-- An added edge is shown by the file, or leads to what was found. -/
theorem mem_addedEdges_iff : e ∈ addedEdges hashing file found ↔
    (∃ l ∈ links file, e = linkEdge hashing file l) ∨
      ∃ rel, ∃ r ∈ references file rel, ∃ n ∈ candidatesByName found r.name,
        e = edge hashing file (idOf hashing file r.source) n.id rel inferredExtractionMethod := by
  rw [addedEdges, mem_append, mem_allInferredEdges_iff, mem_map]
  simp only [eq_comm]

/-- An added edge begins at a symbol of the file, and its id is a hash. -/
theorem source_of_mem_addedEdges (h : e ∈ addedEdges hashing file found) :
    (∃ x ∈ symbols file, e.sourceNodeId = idOf hashing file x) ∧
      e.id = makeStableEdgeId hashing e.sourceNodeId e.targetNodeId
        (relationshipTypeValue e.relationshipType) := by
  rcases mem_addedEdges_iff.mp h with ⟨l, hl, rfl⟩ | ⟨rel, r, hr, n, -, rfl⟩
  · exact ⟨⟨l.source, (mem_symbols_of_mem_links hl).1, rfl⟩, rfl⟩
  · exact ⟨⟨r.source, source_mem_symbols_of_mem_references hr, rfl⟩, rfl⟩

/-! ### Hashes -/

theorem lower_strip_value (rel : RelationshipType) :
    hashing.lower (strip (relationshipTypeValue rel)) = relationshipTypeValue rel := by
  have hstrip : strip (relationshipTypeValue rel) = relationshipTypeValue rel := by
    cases rel <;> decide +kernel
  have hasc : (relationshipTypeValue rel).toList.all (fun c => c.toNat < 128) = true := by
    cases rel <;> decide +kernel
  rw [hstrip, hashing.lower_ascii _ (by simpa using hasc)]
  cases rel <;> decide +kernel

theorem colon_notMem_value (rel : RelationshipType) :
    ':' ∉ (relationshipTypeValue rel).toList := by
  cases rel <;> decide +kernel

theorem relationshipTypeValue_injective : Function.Injective relationshipTypeValue := by
  intro rel rel' h
  cases rel <;> cases rel' <;> first | rfl | exact absurd h (by decide +kernel)

/-- The ends and the type of an edge can be told from what is hashed for it. -/
theorem canonicalEdge_inj {s s' t t' : String} {rel rel' : RelationshipType}
    (hs : ':' ∉ s.toList) (hs' : ':' ∉ s'.toList)
    (h : canonicalEdge hashing s t (relationshipTypeValue rel) =
      canonicalEdge hashing s' t' (relationshipTypeValue rel')) :
    s = s' ∧ t = t' ∧ rel = rel' := by
  have hcol : ":".toList = [':'] := by decide
  rw [canonicalEdge, canonicalEdge, lower_strip_value, lower_strip_value] at h
  have hlis := congrArg String.toList h
  simp only [String.toList_append, hcol, append_assoc, singleton_append] at hlis
  obtain ⟨hsrc, hrs⟩ := append_first_inj hs hs' hlis
  obtain ⟨htgt, hval⟩ :=
    append_last_inj (colon_notMem_value rel) (colon_notMem_value rel') hrs
  exact ⟨String.toList_inj.mp hsrc, String.toList_inj.mp htgt,
    relationshipTypeValue_injective (String.toList_inj.mp hval)⟩

theorem colon_notMem_hexdigest (d : BitVec 256) : ':' ∉ (hexdigest d).toList := by
  intro h
  obtain ⟨n, hn⟩ := exists_digit_of_mem_hexdigest h
  revert n
  decide

theorem canonical_mem_hashed (h : x ∈ symbols file) :
    canonical hashing file.filePath x ∈ hashed hashing file found :=
  mem_append_left _ (mem_map_of_mem h)

/-- Ids tell symbols apart exactly if what is hashed does. -/
theorem injOn_idOf_iff (hfr : CollisionFree hashing (hashed hashing file found)) :
    Set.InjOn (idOf hashing file) {x | x ∈ symbols file} ↔
      Set.InjOn (canonical hashing file.filePath) {x | x ∈ symbols file} := by
  constructor
  · exact fun h x hx y hy hxy =>
      h hx hy (congrArg (fun s => hexdigest (hashing.sha256 s)) hxy)
  · exact fun h x hx y hy hxy => h hx hy
      (hfr _ (canonical_mem_hashed hx) _ (canonical_mem_hashed hy) (hexdigest_injective hxy))

/-- **An id tells the ends and the type** of an added edge. -/
theorem ends_eq_of_id_eq (hfr : CollisionFree hashing (hashed hashing file found))
    {e e' : GraphEdge} (he : e ∈ addedEdges hashing file found)
    (he' : e' ∈ addedEdges hashing file found) (h : e.id = e'.id) :
    e.sourceNodeId = e'.sourceNodeId ∧ e.targetNodeId = e'.targetNodeId ∧
      e.relationshipType = e'.relationshipType := by
  obtain ⟨⟨x, -, hsrc⟩, hid⟩ := source_of_mem_addedEdges he
  obtain ⟨⟨x', -, hsrc'⟩, hid'⟩ := source_of_mem_addedEdges he'
  have hm {e : GraphEdge} (he : e ∈ addedEdges hashing file found) :=
    mem_append_right ((symbols file).map (canonical hashing file.filePath))
      (mem_map_of_mem (f := fun e : GraphEdge => canonicalEdge hashing e.sourceNodeId
        e.targetNodeId (relationshipTypeValue e.relationshipType)) he)
  have hdig := hexdigest_injective (hid.symm.trans (h.trans hid'))
  refine canonicalEdge_inj ?_ ?_ (hfr _ (hm he) _ (hm he') hdig)
  · rw [hsrc]
    exact colon_notMem_hexdigest _
  · rw [hsrc']
    exact colon_notMem_hexdigest _

/-! ### The edges of a result -/

theorem mem_addedEdges_of_mem_edges (h : e ∈ (resultOf hashing file found).edges) :
    e ∈ addedEdges hashing file found :=
  Keyed.mem_of_mem_ofList h

/-- An edge that was added is there, whatever its tag. -/
theorem exists_mem_edges (hfr : CollisionFree hashing (hashed hashing file found))
    (h : e ∈ addedEdges hashing file found) :
    ∃ e' ∈ (resultOf hashing file found).edges, e'.id = e.id ∧
      e'.sourceNodeId = e.sourceNodeId ∧ e'.targetNodeId = e.targetNodeId ∧
        e'.relationshipType = e.relationshipType := by
  obtain ⟨e', he', hid⟩ : ∃ e' ∈ (resultOf hashing file found).edges, e'.id = e.id :=
    Keyed.exists_mem_ofList h
  exact ⟨e', he', hid, ends_eq_of_id_eq hfr (mem_addedEdges_of_mem_edges he') h hid⟩

/-- **An edge that was inferred stays so**: the inferred ones are added last. -/
theorem inferred_of_id_eq {e e' : GraphEdge} (he : e ∈ (resultOf hashing file found).edges)
    (he' : e' ∈ allInferredEdges hashing file found) (h : e.id = e'.id) :
    e.extractionMethod = some inferredExtractionMethod := by
  have hm : e ∈ allInferredEdges hashing file found :=
    Keyed.mem_right_of_mem_ofList_append he (h ▸ mem_map_of_mem he')
  obtain ⟨rel, r, -, n, -, rfl⟩ := mem_allInferredEdges_iff.mp hm
  rfl

theorem ends_of_mem_edges (h : e ∈ (resultOf hashing file found).edges) :
    e.sourceNodeId ∈ (resultOf hashing file found).nodes.map GraphNode.id ∧
      (e.targetNodeId ∈ (resultOf hashing file found).nodes.map GraphNode.id ∨
        e.targetNodeId ∈ found.map GraphNode.id) := by
  rcases mem_addedEdges_iff.mp (mem_addedEdges_of_mem_edges h) with
    ⟨l, hl, rfl⟩ | ⟨rel, r, hr, n, hn, rfl⟩
  · obtain ⟨hsrc, htgt⟩ := mem_symbols_of_mem_links hl
    exact ⟨idOf_mem_map_id found hsrc, Or.inl (idOf_mem_map_id found htgt)⟩
  · refine ⟨idOf_mem_map_id found (source_mem_symbols_of_mem_references hr), Or.inr ?_⟩
    exact mem_map_of_mem (mem_of_mem_filter (mem_of_mem_filter hn))

/-- **What the file shows is not tagged `inferred`** exactly if no node that was found for a name is
one that the file shows the same symbol with. -/
theorem noLinkInferred_iff (hfr : CollisionFree hashing (hashed hashing file found))
    (hinj : Set.InjOn (idOf hashing file) {x | x ∈ symbols file}) :
    NoLinkInferred hashing file (resultOf hashing file found) ↔
      ∀ l ∈ links file, ∀ r ∈ references file l.rel, r.source = l.source →
        ∀ n ∈ candidatesByName found r.name, n.id ≠ idOf hashing file l.target := by
  constructor
  · intro hsh l hl r hr hsrc n hn hid
    have hinf : edge hashing file (idOf hashing file r.source) n.id l.rel
        inferredExtractionMethod ∈ allInferredEdges hashing file found :=
      mem_allInferredEdges_iff.mpr ⟨l.rel, r, hr, n, hn, rfl⟩
    obtain ⟨e, he, heid, hes, het, her⟩ :=
      exists_mem_edges hfr (mem_append_right _ hinf)
    exact hsh e he l hl (hes.trans (congrArg (idOf hashing file) hsrc)) (het.trans hid) her
      (inferred_of_id_eq he hinf heid)
  · intro hfnd e he l hl hes het her
    rcases mem_addedEdges_iff.mp (mem_addedEdges_of_mem_edges he) with
      ⟨l', -, rfl⟩ | ⟨rel, r, hr, n, hn, rfl⟩
    · exact fun h => absurd (Option.some.inj h) (by decide)
    · obtain rfl : rel = l.rel := her
      have hsrc : r.source = l.source := hinj (source_mem_symbols_of_mem_references hr)
        (mem_symbols_of_mem_links hl).1 hes
      exact absurd het (hfnd l hl r hr hsrc n hn)

/-- A call to a name that is defined in the file has its edge. -/
theorem exists_call_edge (hfr : CollisionFree hashing (hashed hashing file found))
    (hsh : NoLinkInferred hashing file (resultOf hashing file found))
    {c : CallRecord} (hc : c ∈ file.calls) (hdef : c.calleeName ∈ definedNames file) :
    ∃ e ∈ (resultOf hashing file found).edges,
      e.sourceNodeId = idOf hashing file (scopeSymbol c.callerName) ∧
        e.targetNodeId = idOf hashing file (some c.calleeName) ∧ e.relationshipType = .calls ∧
          e.extractionMethod = some extractionMethod := by
  have hl : (⟨scopeSymbol c.callerName, some c.calleeName, .calls⟩ : Link) ∈ links file := by
    simp only [links, mem_append, mem_flatMap]
    exact Or.inl (Or.inl (Or.inr ⟨c, hc, by simp [callLinks, hdef]⟩))
  have hadd := mem_append_left (allInferredEdges hashing file found)
    (mem_map_of_mem (f := linkEdge hashing file) hl)
  obtain ⟨e, he, -, hes, het, her⟩ := exists_mem_edges hfr hadd
  refine ⟨e, he, hes, het, her, ?_⟩
  have hnot := hsh e he _ hl hes het her
  rcases mem_addedEdges_iff.mp (mem_addedEdges_of_mem_edges he) with
    ⟨l', -, rfl⟩ | ⟨rel, r, -, n, -, rfl⟩
  · rfl
  · exact absurd rfl hnot

/-! ### When symbols are kept apart -/

theorem keepsApart_resultOf_iff (hfr : CollisionFree hashing (hashed hashing file found)) :
    KeepsApart hashing file found (resultOf hashing file found) ↔
      Distinguishable hashing file found := by
  constructor
  · intro h
    have hone : ∀ x ∈ symbols file, ∃! n, n ∈ (resultOf hashing file found).nodes ∧
        nodeSymbol hashing file n = x := by
      intro x hx
      cases x with
      | none => simpa only [nodeSymbol_eq_none_iff] using h.moduleNode
      | some name =>
        simpa only [nodeSymbol_eq_some_iff] using h.symbolNode name (some_mem_symbols_iff.mp hx)
    have hinj := (existsUnique_node_iff found).mp hone
    exact ⟨(injOn_idOf_iff hfr).mp hinj, (noLinkInferred_iff hfr hinj).mp h.shown⟩
  · intro h
    have hinj := (injOn_idOf_iff hfr).mpr h.canonical
    have hone := (existsUnique_node_iff found).mpr hinj
    have hsh := (noLinkInferred_iff hfr hinj).mpr h.found
    refine ⟨?_, ?_, ?_, fun e he => ends_of_mem_edges he, ?_, hsh⟩
    · simpa only [nodeSymbol_eq_none_iff] using hone none mem_cons_self
    · intro name hnm
      simpa only [nodeSymbol_eq_some_iff] using hone (some name) (some_mem_symbols_iff.mpr hnm)
    · intro n hn
      by_cases hmod : n.id = moduleSymbolId hashing file.filePath
      · exact Or.inl hmod
      · refine Or.inr (some_mem_symbols_iff.mp ?_)
        have hsym : nodeSymbol hashing file n = some n.entityName :=
          nodeSymbol_eq_some_iff.mpr ⟨hmod, rfl⟩
        exact hsym ▸ (nodeSymbol_of_mem_nodes hn).1
    · intro c hc hdef
      obtain ⟨e, he, hes, het, her, hmet⟩ := exists_call_edge hfr hsh hc hdef
      obtain ⟨n, ⟨hn, hsym⟩, -⟩ :=
        hone (some c.calleeName) (some_mem_symbols_of_mem_definedNames hdef)
      refine ⟨e, he, hes, her, hmet, n, hn, ?_, nodeSymbol_eq_some_iff.mp hsym⟩
      rw [(nodeSymbol_of_mem_nodes hn).2, hsym, het]

/-- **A result keeps symbols apart** exactly if the stripped and lowered names differ from each
other and from the module's, and no node that was found for a name is one that the file shows the
same symbol with. -/
theorem buildResult_keepsApart_iff
    {findNodesByName : String → List String → String → Option (List (GraphNode ε ρ))}
    {found : List (GraphNode ε ρ)} (hfound : foundNodes hashing file findNodesByName = some found)
    (hfree : CollisionFree hashing (hashed hashing file found)) :
    ∃ r, buildResult hashing file findNodesByName = some r ∧
      (KeepsApart hashing file found r ↔ Distinguishable hashing file found) :=
  ⟨resultOf hashing file found, by rw [buildResult_eq, hfound, Option.map_some],
    keepsApart_resultOf_iff hfree⟩
/-! ### Symbols that fall together -/

/-- The file `settings.py` with some definitions at its top level. -/
def settingsFile (defs : List DefRecord) : FileRecords where
  moduleName := "settings"
  filePath := "settings.py"
  langLabel := "python"
  defs := defs
  calls := []
  imports := []
  inherits := []
  docId := "doc"
  collection := "code"
  ns := "default"

def moduleDigest : BitVec 256 :=
  0x0b1e3e2aad0ff143c55223d4eab94f8a853c4c59189cea60f30888253784af44

/-- The digest of `config`. -/
def configDigest : BitVec 256 :=
  0x3b086dabd9c8e062b6e9a47dc6b017eb6e336e4a3629ab3f7b675ffd628acc70

def sampleDigests : Dict String (BitVec 256) where
  items :=
    [("code_symbol:<module>::settings.py", moduleDigest),
      ("code_symbol:config::settings.py", configDigest),
      (hexdigest moduleDigest ++ ":" ++ hexdigest configDigest ++ ":defines",
        0x24fd67116503d7fe905d360245ee4b10251f5570740d1342838b9dd865454d6b)]
  nodup := by decide +kernel

def sampleHashing : Hashing where
  lower s := String.ofList (s.toList.map Char.toLower)
  sha256 s := (Dict.get sampleDigests s).getD 0
  lower_ascii _ _ := rfl

theorem collisionFree_sampleHashing {strings : List String}
    (h : ∀ s ∈ strings, s ∈ sampleDigests.items.map Prod.fst) :
    CollisionFree sampleHashing strings := by
  have hnd : (sampleDigests.items.map Prod.snd).Nodup := by decide +kernel
  have hdig {s : String} {d : BitVec 256} (hs : (s, d) ∈ sampleDigests) :
      sampleHashing.sha256 s = d := by
    show (Dict.get sampleDigests s).getD 0 = d
    rw [Dict.get_eq_some_iff.mpr hs, Option.getD_some]
  intro s hs t ht hst
  obtain ⟨⟨s, d⟩, hsd, rfl⟩ := mem_map.mp (h s hs)
  obtain ⟨⟨t, e⟩, hte, rfl⟩ := mem_map.mp (h t ht)
  rw [hdig hsd, hdig hte] at hst
  exact congrArg Prod.fst (inj_on_of_nodup_map hnd hsd hte hst)

/-- The file with a class `Config`. -/
def classFile : FileRecords := settingsFile [⟨"Config", "class", ""⟩]

/-- The file with a class `Config` and a function `config`. -/
def caseFile : FileRecords :=
  settingsFile [⟨"Config", "class", ""⟩, ⟨"config", "function", ""⟩]

/-- The class `Config` has its node, and the module another one. -/
theorem buildResult_keepsApart_iff_classFile :
    ∃ r : GraphExtractionResult ℕ ℕ,
      buildResult sampleHashing classFile (fun _ _ _ => none) = some r ∧
        KeepsApart sampleHashing classFile [] r := by
  have hfnd : foundNodes sampleHashing classFile
      (fun _ _ _ => (none : Option (List (GraphNode ℕ ℕ)))) = some [] := rfl
  obtain ⟨r, hr, hiff⟩ :=
    buildResult_keepsApart_iff hfnd (collisionFree_sampleHashing (by decide +kernel))
  exact ⟨r, hr, hiff.mpr (by decide +kernel)⟩

/-- **Two symbols of one node**: the function has no node of its name. -/
theorem symbols_fall_together :
    CollisionFree sampleHashing (hashed sampleHashing caseFile ([] : List (GraphNode ℕ ℕ))) ∧
      ∃ r : GraphExtractionResult ℕ ℕ,
        buildResult sampleHashing caseFile (fun _ _ _ => none) = some r ∧
          ¬KeepsApart sampleHashing caseFile [] r := by
  refine ⟨collisionFree_sampleHashing (by decide +kernel),
    resultOf sampleHashing caseFile [], (buildResult_eq _).trans rfl, fun h => ?_⟩
  obtain ⟨n, ⟨hn, -, hnm⟩, -⟩ := h.symbolNode "config" (by decide)
  have hnms : (resultOf sampleHashing caseFile ([] : List (GraphNode ℕ ℕ))).nodes.map
      GraphNode.entityName = ["settings", "Config"] := by decide +kernel
  have hm := mem_map_of_mem (f := GraphNode.entityName) hn
  rw [hnms, hnm] at hm
  exact absurd hm (by decide)

end ArchonSearch.Graph.DefRef
