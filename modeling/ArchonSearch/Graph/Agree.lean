import ArchonSearch.Graph.Origin

/-!
# Graphs that agree on what is visible

The graph after a history is compared with the graph after its visible part alone. They agree
(`Agree`) if the rows that only visible documents write are the same, in the same order, and so are
the mentions of visible documents.

An ingest of a visible document is done to both, and does the same to their own rows
(`Paired.ingest`): it deletes the same nodes, and its file finds the same definitions. An ingest of
a hidden one is done to the first alone, and does nothing to them (`Paired.ingest_left`). So the
two agree after every history (`paired_visiblePart`).
-/

namespace ArchonSearch.Graph.Views

open Lib Search List

variable {ids : Naming} {history history' : List (Ingest ids)} {g g' : Tables} {i : Ingest ids}
  {ns : String} {total : List (Ingest ids)} {id doc : String} {e : Edge} {n : Node}
  {preserve : List String}

/-! ### Two graphs that agree -/

/-- The tables agree on what only visible documents write. -/
structure Agree (ns : String) (total : List (Ingest ids)) (g g' : Tables) : Prop where
  nodes : (g.nodes.filter fun n => own ns total n.id) = g'.nodes.filter fun n => own ns total n.id
  edges : (g.edges.filter fun e => ownEdge ns total e.key) =
    g'.edges.filter fun e => ownEdge ns total e.key
  mentions : (g.mentions.filter fun m => !isHidden ns total m.docId) =
    g'.mentions.filter fun m => !isHidden ns total m.docId

def Closed (ns : String) (total : List (Ingest ids)) (g : Tables) : Prop :=
  ∀ e ∈ g.edges, ownEdge ns total e.key = true → e.targetNodeId ∈ nodeIds (visiblePart ns total)

theorem Agree.symm (h : Agree ns total g g') : Agree ns total g' g :=
  ⟨h.nodes.symm, h.edges.symm, h.mentions.symm⟩

theorem Agree.mem_nodes (h : Agree ns total g g') (ho : own ns total n.id = true)
    (hn : n ∈ g.nodes) : n ∈ g'.nodes := by
  have hm : n ∈ g.nodes.filter fun n => own ns total n.id := Keyed.mem_filter.mpr ⟨hn, ho⟩
  rw [h.nodes] at hm
  exact (Keyed.mem_filter.mp hm).1

theorem Agree.mem_edges (h : Agree ns total g g') (ho : ownEdge ns total e.key = true)
    (he : e ∈ g.edges) : e ∈ g'.edges := by
  have hm : e ∈ g.edges.filter fun e => ownEdge ns total e.key :=
    Keyed.mem_filter.mpr ⟨he, ho⟩
  rw [h.edges] at hm
  exact (Keyed.mem_filter.mp hm).1

/-- Both ends of an own edge are written by visible documents. -/
theorem Closed.ends (h : Closed ns total g) (he : e ∈ g.edges)
    (ho : ownEdge ns total e.key = true) :
    e.sourceNodeId ∈ nodeIds (visiblePart ns total) ∧
      e.targetNodeId ∈ nodeIds (visiblePart ns total) := by
  refine ⟨?_, h e he ho⟩
  rcases ownEdge_iff.mp ho with ho | ⟨hvis, -⟩
  · exact (own_iff.mp ho).1
  · exact (ends_of_mem_relationKeys hvis).1

/-- An edge that a visible document wrote last, with an own end, is its own. -/
theorem Traced.ownEdge_of_end (hd : Discreet ns total) (h : Traced history g)
    (hsub : ∀ i ∈ history, i ∈ total) (he : e ∈ g.edges)
    (hdoc : isHidden ns total e.sourceDocId = false)
    (hend : own ns total e.sourceNodeId = true ∨ own ns total e.targetNodeId = true) :
    ownEdge ns total e.key = true := by
  obtain ⟨i, hi, hsp, hr⟩ := h.edge e he
  exact ownEdge_of_visible hd (mem_visiblePart.mpr ⟨hsub i hi, hsp ▸ hdoc⟩) hr fun _ => hend

theorem Traced.ownEdge_of_module (hd : Discreet ns total) (h : Traced history g)
    (hsub : ∀ i ∈ history, i ∈ total) (hn : n ∈ g.nodes) (hmod : n.isModulePseudo = true)
    (ho : own ns total n.id = true) (he : e ∈ g.edges) (hend : e.touches [n.id] = true) :
    ownEdge ns total e.key = true := by
  obtain ⟨k, -, hfnd⟩ := h.node n hn
  have htype : ids.typeOf n.id = .codeSymbol := by
    rw [← k.node_type n hfnd]
    exact of_decide_eq_true (Bool.and_eq_true_iff.mp hmod).1
  simp only [Edge.touches_iff, mem_singleton] at hend
  obtain ⟨i, hi, -, hrel | hf⟩ := h.edge e he
  · have htyp := i.relation_type e hrel
    rcases hend with hend | hend
    · exact absurd htype (hend ▸ htyp.1)
    · exact absurd htype (hend ▸ htyp.2)
  · have hvis (hm : n.id ∈ (symbols i.found).map Node.id) : i ∈ visiblePart ns total := by
      refine mem_visiblePart.mpr ⟨hsub i hi, Bool.eq_false_iff.mpr fun hhid => ?_⟩
      exact (own_iff.mp ho).2 (mem_nodeIds_of_symbols (mem_hiddenPart.mpr ⟨hsub i hi, hhid⟩) hm)
    have hm : n.id ∈ (symbols i.found).map Node.id := by
      rcases hend with hend | hend
      · exact hend ▸ hf.2.1
      · rcases hf.2.2 with htgt | ⟨-, hno⟩
        · exact hend ▸ htgt
        · rw [hend, ← k.node_module n hfnd, hmod] at hno
          cases hno
    exact ownEdge_iff.mpr (Or.inl (own_of_symbols hd (hvis hm) hf.2.1))

structure Paired (ns : String) (total history history' : List (Ingest ids)) (g g' : Tables) :
    Prop where
  traced : Traced history g
  traced' : Traced history' g'
  sub : ∀ i ∈ history, i ∈ total
  sub' : ∀ i ∈ history', i ∈ total
  closed : Closed ns total g
  agree : Agree ns total g g'

theorem Paired.symm (h : Paired ns total history history' g g') :
    Paired ns total history' history g' g :=
  ⟨h.traced', h.traced, h.sub', h.sub,
    fun e he ho => h.closed e (h.agree.symm.mem_edges ho he) ho, h.agree.symm⟩

theorem Paired.mem_endpointIds (hd : Discreet ns total)
    (h : Paired ns total history history' g g') (hdoc : isHidden ns total doc = false)
    (ho : own ns total id = true) (hid : id ∈ g.endpointIds doc) : id ∈ g'.endpointIds doc := by
  obtain ⟨e, he, hsp, hdef, hend⟩ := Views.mem_endpointIds.mp hid
  have hes : own ns total e.sourceNodeId = true ∨ own ns total e.targetNodeId = true := by
    rcases hend with rfl | rfl
    · exact Or.inl ho
    · exact Or.inr ho
  have hownEdge := h.traced.ownEdge_of_end hd h.sub he (hsp ▸ hdoc) hes
  exact Views.mem_endpointIds.mpr ⟨e, h.agree.mem_edges hownEdge he, hsp, hdef, hend⟩

theorem Paired.isShared (hd : Discreet ns total) (h : Paired ns total history history' g g')
    (hn : n ∈ g.nodes) (ho : own ns total n.id = true) (hshr : g.isShared doc n = true) :
    g'.isShared doc n = true := by
  obtain ⟨hmod, hany⟩ := Bool.and_eq_true_iff.mp hshr
  obtain ⟨e, he, hedge⟩ := any_eq_true.mp hany
  have hownEdge := h.traced.ownEdge_of_module hd h.sub hn hmod ho he
    (Bool.and_eq_true_iff.mp hedge).2
  exact Bool.and_eq_true_iff.mpr ⟨hmod, any_eq_true.mpr ⟨e, h.agree.mem_edges hownEdge he, hedge⟩⟩

/-- A visible document loses the same own nodes in both. -/
theorem Paired.mem_doomedIds (hd : Discreet ns total)
    (h : Paired ns total history history' g g') (hdoc : isHidden ns total doc = false)
    (ho : own ns total id = true) (hid : id ∈ g.doomedIds doc preserve false) :
    id ∈ g'.doomedIds doc preserve false := by
  obtain ⟨n, hn, rfl, hcan, hshr⟩ := Graph.mem_doomedIds.mp hid
  have hn' : n ∈ g'.nodes := h.agree.mem_nodes ho hn
  refine Graph.mem_doomedIds.mpr ⟨n, hn', rfl, ?_, Bool.eq_false_iff.mpr fun hshr' => ?_⟩
  · simp only [Tables.isCandidate, Node.isCandidate, Bool.and_eq_true, Bool.or_eq_true,
      contains_iff_mem] at hcan ⊢
    refine ⟨hcan.1, hcan.2.imp_left fun hes => hes.imp_left fun he => ?_⟩
    exact ⟨h.mem_endpointIds hd hdoc ho he.1, he.2⟩
  · rw [h.symm.isShared hd hn' ho hshr'] at hshr
    cases hshr

theorem Paired.mem_doomedIds_iff (hd : Discreet ns total)
    (h : Paired ns total history history' g g') (hdoc : isHidden ns total doc = false)
    (hid : id ∈ nodeIds (visiblePart ns total)) :
    id ∈ g.doomedIds doc preserve false ↔ id ∈ g'.doomedIds doc preserve false := by
  by_cases hshr : IsShared ns total id
  · exact iff_of_false (notMem_doomedIds_of_shared hd h.traced h.sub hshr)
      (notMem_doomedIds_of_shared hd h.traced' h.sub' hshr)
  · have ho : own ns total id = true := own_iff.mpr ⟨hid, fun hhid => hshr ⟨hid, hhid⟩⟩
    exact ⟨h.mem_doomedIds hd hdoc ho, h.symm.mem_doomedIds hd hdoc ho⟩

/-! ### What an ingest does to two graphs -/

theorem Closed.purged (h : Closed ns total g) (doc : String) (preserve : List String)
    (all : Bool) : Closed ns total (purged g doc preserve all) :=
  fun e he => h e (Keyed.mem_filter.mp he).1

variable {nodes : List Node} {edges : List Edge}

theorem Closed.writeGraph (h : Closed ns total g)
    (hes : ∀ e ∈ edges, ownEdge ns total e.key = true →
      e.targetNodeId ∈ nodeIds (visiblePart ns total)) :
    Closed ns total (g.writeGraph nodes edges) := by
  intro e he ho
  rcases Keyed.mem_of_mem_foldl_insert he with hold | hw
  · exact h e hold ho
  · obtain ⟨e, hm, rfl⟩ := mem_map.mp hw
    rw [key_resolveMethod] at ho
    rw [targetNodeId_resolveMethod]
    exact hes e hm ho

theorem Agree.writeGraph (h : Agree ns total g g') {edges' : List Edge}
    (hes : edges.map (resolveMethod g.edges) = edges'.map (resolveMethod g'.edges)) :
    Agree ns total (g.writeGraph nodes edges) (g'.writeGraph nodes edges') := by
  refine ⟨?_, ?_, h.mentions⟩
  · have hnds (g : Tables) (edges : List Edge) :
        (g.writeGraph nodes edges).nodes = nodes.foldl Keyed.insert g.nodes := rfl
    rw [hnds, hnds, Keyed.filter_foldl_insert, Keyed.filter_foldl_insert, h.nodes]
  · have hwrt (g : Tables) (edges : List Edge) : (g.writeGraph nodes edges).edges =
        (edges.map (resolveMethod g.edges)).foldl Keyed.insert g.edges := rfl
    rw [hwrt, hwrt, Keyed.filter_foldl_insert, Keyed.filter_foldl_insert, h.edges, hes]

/-- Rows that are not own can be written to one of them. -/
theorem Agree.writeGraph_left (h : Agree ns total g g')
    (hnds : ∀ n ∈ nodes, own ns total n.id = false)
    (hes : ∀ e ∈ edges, ownEdge ns total e.key = false) :
    Agree ns total (g.writeGraph nodes edges) g' := by
  refine ⟨?_, ?_, h.mentions⟩
  · have hnn : (nodes.filter fun n => own ns total n.id) = [] :=
      filter_eq_nil_iff.mpr fun n hn => by simp [hnds n hn]
    have hwrt : (g.writeGraph nodes edges).nodes = nodes.foldl Keyed.insert g.nodes := rfl
    rw [hwrt, Keyed.filter_foldl_insert, hnn, foldl_nil, h.nodes]
  · have hnn : ((edges.map (resolveMethod g.edges)).filter fun e => ownEdge ns total e.key) =
        [] := by
      refine filter_eq_nil_iff.mpr fun e he => ?_
      obtain ⟨e, hm, rfl⟩ := mem_map.mp he
      simp [hes e hm]
    have hwrt : (g.writeGraph nodes edges).edges =
        (edges.map (resolveMethod g.edges)).foldl Keyed.insert g.edges := rfl
    rw [hwrt, Keyed.filter_foldl_insert, hnn, foldl_nil, h.edges]

/-- **The rows of a visible document** are deleted from both. -/
theorem Paired.purged (hd : Discreet ns total) (h : Paired ns total history history' g g')
    (hdoc : isHidden ns total doc = false) (preserve : List String) (all : Bool) :
    Paired ns total history history' (purged g doc preserve all) (purged g' doc preserve all) := by
  refine ⟨h.traced.purged doc preserve all, h.traced'.purged doc preserve all, h.sub, h.sub',
    h.closed.purged doc preserve all, ?_, ?_, h.agree.mentions⟩
  · refine Keyed.filter_filter_congr h.agree.nodes fun n _ ho => ?_
    have heq : n.id ∈ g.doomedIds doc preserve false ↔ n.id ∈ g'.doomedIds doc preserve false :=
      h.mem_doomedIds_iff hd hdoc (own_iff.mp ho).1
    simp [contains_eq_mem, heq]
  · refine Keyed.filter_filter_congr h.agree.edges fun e he ho => ?_
    have hes := h.closed.ends he ho
    have hsrc : e.sourceNodeId ∈ g.doomedIds doc preserve false ↔
        e.sourceNodeId ∈ g'.doomedIds doc preserve false := h.mem_doomedIds_iff hd hdoc hes.1
    have htgt : e.targetNodeId ∈ g.doomedIds doc preserve false ↔
        e.targetNodeId ∈ g'.doomedIds doc preserve false := h.mem_doomedIds_iff hd hdoc hes.2
    simp [Edge.touches, contains_eq_mem, hsrc, htgt]

/-- **The rows of a hidden document** are not own. -/
theorem Paired.purged_left (hd : Discreet ns total) (h : Paired ns total history history' g g')
    (hdoc : isHidden ns total doc = true) (preserve : List String) (all : Bool) :
    Paired ns total history history' (Views.purged g doc preserve all) g' := by
  -- what is deleted is written by a hidden document, and not shared
  have hdoom {id : String} (hid : id ∈ nodeIds (visiblePart ns total)) :
      id ∉ g.doomedIds doc preserve false := by
    intro hm
    refine notMem_doomedIds_of_shared hd h.traced h.sub ⟨hid, ?_⟩ hm
    obtain ⟨i, hi, rfl, hfnd⟩ := h.traced.mem_of_mem_doomedIds hm
    exact mem_nodeIds.mpr ⟨i, mem_hiddenPart.mpr ⟨h.sub i hi, hdoc⟩, hfnd⟩
  refine ⟨h.traced.purged doc preserve all, h.traced', h.sub, h.sub',
    h.closed.purged doc preserve all, ?_, ?_, h.agree.mentions⟩
  · refine (Keyed.filter_filter_of_imp fun n _ ho => ?_).trans h.agree.nodes
    simpa using hdoom (own_iff.mp ho).1
  refine (Keyed.filter_filter_of_imp fun e he ho => ?_).trans h.agree.edges
  have hes := h.closed.ends he ho
  have hsp : e.sourceDocId ≠ doc := by
    intro hsp
    obtain ⟨i, hi, hsp', hr⟩ := h.traced.edge e he
    have hhid : i ∈ hiddenPart ns total :=
      mem_hiddenPart.mpr ⟨h.sub i hi, by rw [← hsp', hsp, hdoc]⟩
    rw [not_ownEdge_of_hidden hhid hr] at ho
    cases ho
  simp [hsp, Edge.touches, hdoom hes.1, hdoom hes.2]

variable {name : String}

/-- Two graphs that agree have the same definitions of a name, if no hidden one is stored. -/
theorem Paired.definitions (h : Paired ns total history history' g g')
    (hvis : ∀ n ∈ g.nodes, n.isDefinitionOf name = true → own ns total n.id = true)
    (hvis' : ∀ n ∈ g'.nodes, n.isDefinitionOf name = true → own ns total n.id = true) :
    (g.nodes.items.filter fun n => n.isDefinitionOf name) =
      g'.nodes.items.filter fun n => n.isDefinitionOf name := by
  have hres {g : Tables}
      (ho : ∀ n ∈ g.nodes, n.isDefinitionOf name = true → own ns total n.id = true) :
      (g.nodes.items.filter fun n => n.isDefinitionOf name) =
        (g.nodes.items.filter fun n => own ns total n.id).filter fun n =>
          n.isDefinitionOf name := by
    rw [filter_filter]
    refine filter_congr fun n hn => ?_
    cases hdef : n.isDefinitionOf name with
    | false => rfl
    | true => rw [ho n hn hdef, Bool.and_self]
  have his : (g.nodes.items.filter fun n => own ns total n.id) =
      g'.nodes.items.filter fun n => own ns total n.id := congrArg Keyed.items h.agree.nodes
  rw [hres hvis, hres hvis', his]

theorem extract_congr {f : ParsedFile doc} {stored stored' : List Node}
    (h : ∀ u ∈ f.unresolved, (stored.filter fun n => n.isDefinitionOf u.2.2) =
      stored'.filter fun n => n.isDefinitionOf u.2.2) :
    (f.extract stored).edges = (f.extract stored').edges := by
  have hinf : f.inferred stored = f.inferred stored' := by
    refine flatMap_congr fun u hu => ?_
    rw [h u hu]
  simp only [ParsedFile.extract, hinf]

/-- The definitions that a visible file refers to are own. -/
theorem Traced.own_of_definition (hd : Discreet ns total) (h : Traced history g)
    (hsub : ∀ i ∈ history, i ∈ total)
    (href : ∀ j ∈ history, isHidden ns total j.doc = true → ∀ n ∈ foundNodes j.found,
      n.isDefinitionOf name = false)
    (hn : n ∈ g.nodes) (hdef : n.isDefinitionOf name = true) :
    own ns total n.id = true := by
  obtain ⟨j, hj, hfnd⟩ := h.node n hn
  have hvis : j ∈ visiblePart ns total := by
    refine mem_visiblePart.mpr ⟨hsub j hj, Bool.eq_false_iff.mpr fun hhid => ?_⟩
    rw [href j hj hhid n hfnd] at hdef
    cases hdef
  have hid : n.id ∈ nodeIds (visiblePart ns total) :=
    mem_nodeIds.mpr ⟨j, hvis, mem_map_of_mem hfnd⟩
  refine own_iff.mpr ⟨hid, fun hhid => ?_⟩
  exact hd.symbol n.id ⟨hid, hhid⟩ (h.definition hn hdef).1

/-- **An ingest of a visible document** is done to both. -/
theorem Paired.ingest (hd : Discreet ns total) (h : Paired ns total history history' g g')
    (hi : i ∈ visiblePart ns total)
    (href : ∀ name ∈ references i.found, ∀ j ∈ history, isHidden ns total j.doc = true →
      ∀ n ∈ foundNodes j.found, n.isDefinitionOf name = false)
    (hsub : ∀ j ∈ history', j ∈ history) :
    Paired ns total (history ++ [i]) (history' ++ [i]) (ingestText g i.found)
      (ingestText g' i.found) := by
  obtain ⟨hm, hdoc⟩ := mem_visiblePart.mp hi
  have hl (history : List (Ingest ids)) : i ∈ history ++ [i] :=
    mem_append_right _ mem_cons_self
  have hkeep (history : List (Ingest ids)) : ∀ j ∈ history, j ∈ history ++ [i] :=
    fun j hj => mem_append_left _ hj
  have htot {history : List (Ingest ids)} (hsub : ∀ j ∈ history, j ∈ total) :
      ∀ j ∈ history ++ [i], j ∈ total :=
    forall_mem_append.mpr ⟨hsub, forall_mem_singleton.mpr hm⟩
  -- the ingest itself is of a visible document
  have href' : ∀ name ∈ references i.found, ∀ j ∈ history ++ [i],
      isHidden ns total j.doc = true → ∀ n ∈ foundNodes j.found, n.isDefinitionOf name = false := by
    intro name hnm
    refine forall_mem_append.mpr ⟨href name hnm, forall_mem_singleton.mpr ?_⟩
    intro hhid
    rw [hdoc] at hhid
    cases hhid
  have href'' : ∀ name ∈ references i.found, ∀ j ∈ history' ++ [i],
      isHidden ns total j.doc = true → ∀ n ∈ foundNodes j.found, n.isDefinitionOf name = false := by
    intro name hnm
    have h' := forall_mem_append.mp (href' name hnm)
    exact forall_mem_append.mpr ⟨fun j hj => h'.1 j (hsub j hj), h'.2⟩
  have hst : Paired ns total (history ++ [i]) (history' ++ [i]) g g' :=
    ⟨h.traced.mono (hkeep history), h.traced'.mono (hkeep history'), htot h.sub,
      htot h.sub', h.closed, h.agree⟩
  refine ingestText_induction
    (R := fun g g' => Paired ns total (history ++ [i]) (history' ++ [i]) g g')
    (S := fun g g' => Paired ns total (history ++ [i]) (history' ++ [i]) g g') i hst
    (fun g g' _ h => h.purged hd hdoc [] true) (fun _ h => h) ?_ ?_
    (fun g g' preserve h => h.purged hd hdoc preserve false) ?_
  · intro g g' x hx h
    have hrel (e : Edge) (he : e ∈ x.edges) : e ∈ relations i.found :=
      (mem_relations hx).mpr he
    refine ⟨h.traced.writeMentioned (hl history) hx,
      h.traced'.writeMentioned (hl history') hx, h.sub, h.sub',
      h.closed.writeGraph fun e he _ => ?_, h.agree.writeGraph ?_⟩
    · exact mem_nodeIds.mpr ⟨i, hi, (ends_of_mem_relations (hrel e he)).2⟩
    · refine map_congr_left fun e he => ?_
      rw [resolveMethod_of_mem_relations (hrel e he), resolveMethod_of_mem_relations (hrel e he)]
  · intro g g' x hx h
    refine ⟨h.traced.writeMentions (hl history) hx,
      h.traced'.writeMentions (hl history') hx, h.sub, h.sub', h.closed,
      h.agree.nodes, h.agree.edges, ?_⟩
    simp only [Tables.writeMentions, Tables.deleteMentionsByDoc, filter_append]
    rw [filter_comm, h.agree.mentions, filter_comm]
  · intro g g' stored stored' f hf hsto h
    have ho (n : Node) (name : String) (hnm : name ∈ references i.found) :
        n ∈ stored.nodes → n.isDefinitionOf name = true → own ns total n.id = true :=
      fun hn => hsto.traced.own_of_definition hd h.sub (href' name hnm) hn
    have ho' (n : Node) (name : String) (hnm : name ∈ references i.found) :
        n ∈ stored'.nodes → n.isDefinitionOf name = true → own ns total n.id = true :=
      fun hn => hsto.traced'.own_of_definition hd h.sub' (href'' name hnm) hn
    have hes : (f.extract stored.nodes.items).edges =
        (f.extract stored'.nodes.items).edges := by
      refine extract_congr fun u hu => ?_
      have hnm : u.2.2 ∈ references i.found := by
        simp only [references, hf, Option.elim_some]
        exact mem_map_of_mem hu
      exact hsto.definitions (fun n => ho n u.2.2 hnm) fun n => ho' n u.2.2 hnm
    refine ⟨h.traced.writeFile (hl history) hf hsto.traced,
      h.traced'.writeFile (hl history') hf hsto.traced', h.sub, h.sub',
      h.closed.writeGraph fun e he _ => ?_, h.agree.writeGraph ?_⟩
    · rcases (mem_extract hf he).2.2 with htgt | ⟨n, hn, hid, name, hnm, hdef⟩
      · exact mem_nodeIds_of_symbols hi htgt
      · rw [← hid]
        exact (own_iff.mp (ho n name hnm hn hdef)).1
    · rw [← hes]
      refine map_congr_left fun e he => ?_
      have hsrc := own_of_symbols hd hi (mem_extract hf he).2.1
      have heq : g.edges.get? e.key = g'.edges.get? e.key :=
        Keyed.get?_eq_of_filter_eq h.agree.edges (ownEdge_iff.mpr (Or.inl hsrc))
      unfold resolveMethod
      rw [heq]

/-- **An ingest of a hidden document** does not matter. -/
theorem Paired.ingest_left (hd : Discreet ns total)
    (h : Paired ns total history history' g g') (hi : i ∈ hiddenPart ns total) :
    Paired ns total (history ++ [i]) history' (ingestText g i.found) g' := by
  obtain ⟨hmem, hdoc⟩ := mem_hiddenPart.mp hi
  have hl : i ∈ history ++ [i] := mem_append_right _ mem_cons_self
  have hsub : ∀ j ∈ history ++ [i], j ∈ total :=
    forall_mem_append.mpr ⟨h.sub, forall_mem_singleton.mpr hmem⟩
  have hst : Paired ns total (history ++ [i]) history' g g' :=
    ⟨h.traced.mono fun j hj => mem_append_left _ hj, h.traced', hsub, h.sub', h.closed, h.agree⟩
  have hnd (n : Node) (hn : n ∈ foundNodes i.found) : own ns total n.id = false := by
    refine Bool.eq_false_iff.mpr fun ho => (own_iff.mp ho).2 ?_
    exact mem_nodeIds.mpr ⟨i, hi, mem_map_of_mem hn⟩
  refine ingestText_invariant
    (I := fun g => Paired ns total (history ++ [i]) history' g g')
    (J := fun g => Paired ns total (history ++ [i]) history' g g') i hst
    (fun g _ h => h.purged_left hd hdoc [] true) (fun _ h => h) ?_ ?_
    (fun g preserve h => h.purged_left hd hdoc preserve false) ?_
  · intro g x hx h
    have hedge (e : Edge) (he : e ∈ x.edges) : ownEdge ns total e.key = false :=
      not_ownEdge_of_hidden hi (Or.inl ((mem_relations hx).mpr he))
    refine ⟨h.traced.writeMentioned hl hx, h.traced', h.sub, h.sub',
      h.closed.writeGraph fun e he ho => ?_, h.agree.writeGraph_left ?_ hedge⟩
    · rw [hedge e he] at ho
      cases ho
    · exact fun n hn => hnd n (mem_foundNodes_of_mentioned hx hn)
  · intro g x hx h
    refine ⟨h.traced.writeMentions hl hx, h.traced', h.sub, h.sub', h.closed, h.agree.nodes,
      h.agree.edges, ?_⟩
    rw [← h.agree.mentions]
    simp only [Tables.writeMentions, Tables.deleteMentionsByDoc, filter_append, filter_filter]
    have hnn : (x.mentions.filter fun m => !isHidden ns total m.docId) = [] := by
      refine filter_eq_nil_iff.mpr fun m hm => ?_
      simp [doc_of_mem_mentions ((mem_mentions hx).mpr hm), hdoc]
    rw [hnn, append_nil]
    refine filter_congr fun m _ => ?_
    by_cases hd' : m.docId = i.doc <;> simp [hd', hdoc]
  · intro g stored f hf hsto h
    have hedge (e : Edge) (he : e ∈ (f.extract stored.nodes.items).edges) :
        ownEdge ns total e.key = false := by
      obtain ⟨hdefr, hsrc, htgt⟩ := mem_extract hf he
      refine not_ownEdge_of_hidden hi (Or.inr ⟨hdefr, hsrc, ?_⟩)
      rcases htgt with htgt | ⟨n, hn, hid, name, -, hdef⟩
      · exact Or.inl htgt
      · exact Or.inr (hid ▸ hsto.traced.definition hn hdef)
    refine ⟨h.traced.writeFile hl hf hsto.traced, h.traced', h.sub, h.sub',
      h.closed.writeGraph fun e he ho => ?_, h.agree.writeGraph_left ?_ hedge⟩
    · rw [hedge e he] at ho
      cases ho
    · exact fun n hn => hnd n (mem_foundNodes_of_symbols ((mem_symbols hf).mpr hn))

/-- **The own rows of a history** are those of its visible part. -/
theorem paired_visiblePart (hd : Discreet ns total) :
    Paired ns total total (visiblePart ns total) (collectionOf total).graph
      (collectionOf (visiblePart ns total)).graph := by
  have hpre : ∀ history rest : List (Ingest ids), total = history ++ rest →
      Paired ns total history (history.filter fun i => !isHidden ns total i.doc)
        (collectionOf history).graph
        (collectionOf (history.filter fun i => !isHidden ns total i.doc)).graph := by
    intro history
    induction history using List.reverseRecOn with
    | nil =>
      intro rest _
      refine ⟨traced_collectionOf [], traced_collectionOf [],
        fun _ hi => absurd hi not_mem_nil, fun _ hi => absurd hi not_mem_nil,
        fun e he => absurd he (Keyed.notMem_empty e), rfl, rfl, rfl⟩
    | append_singleton history i ih =>
      intro rest htot
      have hsplit : total = history ++ i :: rest := by simp [htot]
      have hi : i ∈ total := by
        rw [hsplit]
        exact mem_append_right _ mem_cons_self
      have h := ih (i :: rest) hsplit
      have hcoll (history : List (Ingest ids)) : (collectionOf (history ++ [i])).graph =
          ingestText (collectionOf history).graph i.found := by
        rw [collectionOf, foldl_append]
        rfl
      rw [hcoll, filter_append, filter_singleton]
      cases hdoc : isHidden ns total i.doc with
      | true =>
        rw [Bool.not_true, cond_false, append_nil]
        exact h.ingest_left hd (mem_hiddenPart.mpr ⟨hi, hdoc⟩)
      | false =>
        rw [Bool.not_false, cond_true, hcoll]
        exact h.ingest hd (mem_visiblePart.mpr ⟨hi, hdoc⟩)
          (hd.unreferenced history i rest hsplit hdoc) fun j hj => (mem_filter.mp hj).1
  exact hpre total [] (append_nil total).symm

end ArchonSearch.Graph.Views
