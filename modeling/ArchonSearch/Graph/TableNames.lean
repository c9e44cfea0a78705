import ArchonSearch.Identifiers
import ArchonSearch.Lib.Separator

/-!
# The names of the graph tables

The tables of a graph are named after the namespace, the collection and what is in them. The
separator between the two names is an underscore doubled, that before the last part a single one,
and underscores may stand in the names as well; but a name that its validator accepts has no
doubled one and does not end with one. So the name of a table says whose it is
(`tableName_separates`).
-/

namespace ArchonSearch.Graph.TableNames

open Lib Identifiers List

/-- `_ARCHON_PREFIX`. -/
def archonPrefix : String := "_archon_"

/-- `GraphStore._table_name`. -/
def tableName (collection ns suffix : String) : String :=
  archonPrefix ++ "graph_" ++ ns ++ "__" ++ collection ++ "_" ++ suffix

inductive TableKind where
  /-- `_nodes_table_name`. -/
  | nodes
  /-- `_edges_table_name`. -/
  | edges
  /-- `_communities_table_name`. -/
  | communities
  /-- `_mentions_table_name`. -/
  | mentions
  deriving DecidableEq

def TableKind.suffix : TableKind → String
  | nodes => "nodes"
  | edges => "edges"
  | communities => "communities"
  | mentions => "mentions"

def TableKind.all : List TableKind := [nodes, edges, communities, mentions]

/-! ### The expression for the names -/

/-- `[a-zA-Z0-9][a-zA-Z0-9_-]*`. -/
def segmentRe : List Char → Bool
  | [] => false
  | c :: rest => Acl.isNameStart c && rest.all Acl.isNameChar

def cuts {α : Type*} (l : List α) : List (List α × List α) := l.inits.zip l.tails

/-- `(?:nodes|edges|communities|mentions)$`, after an underscore; a line may end there. -/
def endingRe (rest : List Char) : Bool :=
  TableKind.all.any fun kind =>
    rest == '_' :: kind.suffix.toList || rest == '_' :: kind.suffix.toList ++ ['\n']

/-- `_NEW_PATTERN_RE.match`. -/
def newPatternRe (name : String) : Bool :=
  ((archonPrefix ++ "graph_").toList.isPrefixOf? name.toList).any fun rest =>
    (cuts rest).any fun (ns, rest) => segmentRe ns &&
      ("__".toList.isPrefixOf? rest).any fun rest =>
        (cuts rest).any fun (collection, rest) => segmentRe collection && endingRe rest

structure TableKey (isPrintable : Char → Bool) where
  (ns collection : String)
  kind : TableKind
  ns_valid : validateNamespace isPrintable ns = .ok ()
  collection_valid : validateGraphCollection isPrintable collection = .ok ()

variable {isPrintable : Char → Bool}

def TableKey.tableName (key : TableKey isPrintable) : String :=
  TableNames.tableName key.collection key.ns key.kind.suffix

/-! ### Cutting a name -/

theorem mem_cuts_append {α : Type*} (l r : List α) : (l, r) ∈ cuts (l ++ r) := by
  induction l with
  | nil => cases r <;> simp [cuts]
  | cons a l ih =>
    unfold cuts at ih ⊢
    rw [cons_append, inits_cons, tails_cons, zip_cons_cons, zip_map_left]
    exact mem_cons_of_mem _ (mem_map.mpr ⟨(l, r), ih, rfl⟩)

theorem toList_tableName (collection ns suffix : String) :
    (tableName collection ns suffix).toList = (archonPrefix ++ "graph_").toList ++
      (ns.toList ++ '_' :: '_' :: (collection.toList ++ '_' :: suffix.toList)) := by
  simp only [tableName, String.toList_append, append_assoc]
  rfl

variable {name : String}

/-- A name that ends before a doubled underscore does not blur it. -/
theorem not_infix_of_valid (hla : name.toList.getLast? ≠ some '_')
    (hdoub : ¬ ['_', '_'] <:+: name.toList) : ¬ ['_', '_'] <:+: name.toList ++ ['_'] := by
  rintro ⟨l, r, h⟩
  rcases eq_nil_or_concat r with rfl | ⟨r, c, rfl⟩
  · refine hla ?_
    have hl : l ++ ['_'] ++ ['_'] = name.toList ++ ['_'] := by simpa using h
    rw [← (append_inj' hl rfl).1]
    simp
  · refine hdoub ⟨l, r, ?_⟩
    rw [concat_eq_append, ← append_assoc] at h
    exact (append_inj' h rfl).1

theorem TableKind.underscore_notMem (kind : TableKind) : '_' ∉ kind.suffix.toList := by
  cases kind <;> decide

theorem TableKind.suffix_injective : Function.Injective TableKind.suffix := by
  intro kind kind'
  cases kind <;> cases kind' <;> decide

theorem segmentRe_of_namespaceRe (h : Acl.namespaceRe name = true) :
    segmentRe name.toList = true := by
  unfold Acl.namespaceRe at h
  rcases hnm : name.toList with - | ⟨c, rest⟩
  · rw [hnm] at h
    cases h
  · rw [hnm] at h
    exact (Bool.and_eq_true_iff.mp h).1

/-! ### What a name says -/

theorem tableName_inj {key key' : TableKey isPrintable} (h : key.tableName = key'.tableName) :
    key.ns = key'.ns ∧ key.collection = key'.collection ∧ key.kind = key'.kind := by
  obtain ⟨-, -, hl, hdoub⟩ := validateNamespace_eq_ok.mp key.ns_valid
  obtain ⟨-, -, hl', hdoub'⟩ := validateNamespace_eq_ok.mp key'.ns_valid
  have hlis := congrArg String.toList h
  rw [TableKey.tableName, TableKey.tableName, toList_tableName, toList_tableName] at hlis
  -- the first doubled underscore ends the namespace, the last underscore the collection
  obtain ⟨hns, hrs⟩ := append_double_inj (not_infix_of_valid hl hdoub)
    (not_infix_of_valid hl' hdoub') (append_cancel_left hlis)
  obtain ⟨hcoll, hsuf⟩ := append_last_inj key.kind.underscore_notMem key'.kind.underscore_notMem hrs
  exact ⟨String.toList_inj.mp hns, String.toList_inj.mp hcoll,
    TableKind.suffix_injective (String.toList_inj.mp hsuf)⟩

theorem newPatternRe_tableName (key : TableKey isPrintable) :
    newPatternRe key.tableName = true := by
  have hns := segmentRe_of_namespaceRe (validateNamespace_eq_ok.mp key.ns_valid).2.1
  have hcoll := segmentRe_of_namespaceRe (validateGraphCollection_eq_ok.mp key.collection_valid).1
  have he : endingRe ('_' :: key.kind.suffix.toList) = true := by
    cases key.kind <;> decide
  have hpre (l r : List Char) : l.isPrefixOf? (l ++ r) = some r := by
    induction l with
    | nil => rfl
    | cons c l ih => simp [List.isPrefixOf?, ih]
  rw [newPatternRe, TableKey.tableName, toList_tableName, hpre, Option.any_some, any_eq_true]
  refine ⟨_, mem_cuts_append key.ns.toList _, ?_⟩
  rw [Bool.and_eq_true]
  refine ⟨hns, ?_⟩
  have hsep := hpre "__".toList (key.collection.toList ++ '_' :: key.kind.suffix.toList)
  rw [show '_' :: '_' :: (key.collection.toList ++ '_' :: key.kind.suffix.toList) =
    "__".toList ++ (key.collection.toList ++ '_' :: key.kind.suffix.toList) from rfl, hsep,
    Option.any_some, any_eq_true]
  refine ⟨_, mem_cuts_append key.collection.toList _, ?_⟩
  rw [Bool.and_eq_true]
  exact ⟨hcoll, he⟩

theorem isValidCollectionName_tableName (key : TableKey isPrintable) :
    isValidCollectionName key.tableName = false := by
  have hnm : ∃ rest, key.tableName.toList = '_' :: rest :=
    ⟨_, toList_tableName key.collection key.ns key.kind.suffix⟩
  obtain ⟨rest, hrs⟩ := hnm
  unfold isValidCollectionName collectionRe Acl.namespaceRe
  rw [hrs]
  rfl

/-- **The graph tables of different tenants are different tables**: no two of them have one name,
and each name is recognised as one of the present scheme, and is not that of a collection. -/
theorem tableName_separates (isPrintable : Char → Bool) :
    Function.Injective (TableKey.tableName : TableKey isPrintable → String) ∧
      ∀ key : TableKey isPrintable, newPatternRe key.tableName = true ∧
        isValidCollectionName key.tableName = false := by
  refine ⟨fun key key' h => ?_, fun key =>
    ⟨newPatternRe_tableName key, isValidCollectionName_tableName key⟩⟩
  obtain ⟨hns, hcoll, hk⟩ := tableName_inj h
  cases key
  cases hns
  cases hcoll
  cases hk
  rfl

/-- The tables of a collection whose names have underscores. -/
def sampleKey (kind : TableKind) : TableKey fun _ => true where
  ns := "team_a"
  collection := "a_nodes"
  kind := kind
  ns_valid := validateNamespace_eq_ok.mpr (by decide)
  collection_valid := validateGraphCollection_eq_ok.mpr (by decide)

theorem tableName_separates_sampleKey :
    (sampleKey .edges).tableName = "_archon_graph_team_a__a_nodes_edges" ∧
      (sampleKey .edges).tableName ≠ (sampleKey .nodes).tableName ∧
      newPatternRe (sampleKey .edges).tableName = true ∧
      isValidCollectionName (sampleKey .edges).tableName = false := by
  obtain ⟨hinj, hnm⟩ := tableName_separates fun _ => true
  refine ⟨by decide, fun h => ?_, hnm _⟩
  exact absurd (congrArg TableKey.kind (hinj h)) nofun

end ArchonSearch.Graph.TableNames
