import Mathlib.Data.List.Nodup
import Coupling.Graph.Digraph

/-!
# Graphs of names

A graph whose nodes are texts is read through the names of its nodes: what a node carries
(`attributesOf`) and what an edge carries (`attributesBetween`). This is its `outline`. A change of
one node or one edge changes what is read there and nothing else. If no node and no edge is there
twice (`Named`), what is read is all there is.
-/

namespace Coupling

theorem Data.same_str {j : Json} {s : String} : Data.same j (.str s) = true ↔ j = .str s := by
  cases j with
  | str t | null => simp [Data.same]
  | bool b | int n | float x => simp [Data.same, Data.sameNumber, Data.number?]
  | arr xs | obj ms => simp [Data.same]

theorem Data.same_str_of_ne {s t : String} (h : s ≠ t) : Data.same (.str s) (.str t) = false := by
  rw [Bool.eq_false_iff, ne_eq, Data.same_str, Json.str.injEq]
  exact h

/-- What a graph is by its names: what each node carries, and each edge. -/
@[ext] structure Outline where
  nodes : String → Option Attributes
  edges : String → String → Option Attributes

namespace Outline

def empty : Outline := ⟨fun _ => none, fun _ _ => none⟩

/-- With a node that carries something. -/
def describe (w : Outline) (name : String) (attributes : Attributes) : Outline :=
  { w with nodes := fun x => if x = name then some attributes else w.nodes x }

theorem describe_describe (w : Outline) (name : String) (old new : Attributes) :
    (w.describe name old).describe name new = w.describe name new := by
  refine Outline.ext (funext fun x => ?_) rfl
  show (if x = name then some new else if x = name then some old else w.nodes x) =
    if x = name then some new else w.nodes x
  split <;> rfl

/-- With an edge that weighs something, and the nodes at its ends. -/
def join (w : Outline) (source target : String) (weight : Json) : Outline where
  nodes x := if x = source ∨ x = target then some ((w.nodes x).getD []) else w.nodes x
  edges x y := if x = source ∧ y = target
    then some (Json.put ((w.edges x y).getD []) "weight" weight) else w.edges x y

end Outline

namespace Digraph

variable {g : Digraph}

/-! ## What is read -/

/-- What a node carries. -/
def attributesOf (g : Digraph) (name : String) : Option Attributes :=
  (g.find? (.str name)).map (·.attributes)

/-- What an edge to a name carries. -/
def edgeTo (edges : List (Json × Attributes)) (target : String) : Option Attributes :=
  (edges.find? fun e => Data.same e.1 (.str target)).map (·.2)

/-- What the edge from one node to another carries. -/
def attributesBetween (g : Digraph) (source target : String) : Option Attributes :=
  (g.find? (.str source)).bind fun n => edgeTo n.edges target

def outline (g : Digraph) : Outline := ⟨g.attributesOf, g.attributesBetween⟩

@[simp] theorem outline_nodes (name : String) : g.outline.nodes name = g.attributesOf name := rfl

@[simp] theorem outline_edges (source target : String) :
    g.outline.edges source target = g.attributesBetween source target := rfl

theorem outline_empty : Digraph.empty.outline = .empty := rfl

theorem edge?_eq (source target : String) :
    g.edge? (.str source) (.str target) = g.attributesBetween source target := by
  unfold edge? attributesBetween edgeTo
  cases g.find? (.str source) with
  | none => rfl
  | some n =>
    show ((n.edges.find? fun e => Data.same e.1 (.str target)).bind fun e => some e.2) = _
    rw [Option.bind_some]
    exact Option.map_eq_bind.symm

variable {name : String} {n : GraphNode}

theorem id_of_find? (h : g.find? (.str name) = some n) : n.id = .str name := by
  have hsame := List.find?_some h
  exact Data.same_str.mp hsame

theorem hasNode_iff : g.hasNode (.str name) = true ↔ (g.attributesOf name).isSome := by
  rw [hasNode, attributesOf, Option.isSome_map]

/-! ## Changes -/

variable {id : Json} {f : GraphNode → GraphNode} {P : Attributes → Prop}

/-- A node that is there stays, and a new one comes last. -/
theorem withNode_of_node (hid : Data.isKey id = true ∧ id ≠ .null) :
    g.withNode id = .ok (if g.hasNode id then g else ⟨g.nodes ++ [⟨id, [], []⟩]⟩) := by
  unfold withNode Data.key
  rw [if_pos hid.1]
  show (if g.hasNode id then _ else _) = _
  split
  · rfl
  · cases id with
    | null => exact absurd rfl hid.2
    | _ => rfl

theorem hasNode_eq_true : g.hasNode id = true ↔ ∃ n ∈ g.nodes, Data.same n.id id = true := by
  unfold hasNode find?
  rw [List.find?_isSome]

theorem mem_changeNode {n : GraphNode} (h : n ∈ (g.changeNode id f).nodes) :
    ∃ n₀ ∈ g.nodes, n = if Data.same n₀.id id then f n₀ else n₀ := by
  obtain ⟨n₀, hn₀, rfl⟩ := List.mem_map.mp h
  exact ⟨n₀, hn₀, rfl⟩

/-- A change that keeps the names of nodes. -/
theorem id_changed (hf : ∀ n, (f n).id = n.id) (id : Json) (n : GraphNode) :
    (if Data.same n.id id then f n else n).id = n.id := by
  split
  · exact hf n
  · rfl

theorem map_id_changeNode (id : Json) (f : GraphNode → GraphNode) (hf : ∀ n, (f n).id = n.id) :
    (g.changeNode id f).nodes.map (·.id) = g.nodes.map (·.id) := by
  unfold changeNode
  rw [List.map_map]
  exact List.map_congr_left fun n _ => id_changed hf id n

/-- An edge that is put is new and comes last, or takes the place of the one to the same node. -/
theorem putEdgeInto_cases (target : Json) (key : String) (value : Json)
    (edges : List (Json × Attributes)) :
    (∀ e ∈ edges, Data.same e.1 target = false) ∧ putEdgeInto target key value edges = edges ++
      [(target, [(key, value)])] ∨
      ∃ before e after, edges = before ++ e :: after ∧ Data.same e.1 target = true ∧
        putEdgeInto target key value edges = before ++ (e.1, Json.put e.2 key value) :: after := by
  induction edges with
  | nil => exact .inl ⟨nofun, rfl⟩
  | cons e edges ih =>
    rw [putEdgeInto]
    by_cases he : Data.same e.1 target = true
    · rw [if_pos he]
      exact .inr ⟨[], e, edges, rfl, he, rfl⟩
    · rw [if_neg he]
      rcases ih with ⟨hnew, heq⟩ | ⟨before, d, after, rfl, hd, heq⟩
      · refine .inl ⟨?_, by rw [heq, List.cons_append]⟩
        rw [List.forall_mem_cons]
        exact ⟨Bool.eq_false_iff.mpr he, hnew⟩
      · exact .inr ⟨e :: before, d, after, rfl, hd, by rw [heq, List.cons_append]⟩

theorem find?_changeNode (hf : ∀ n, (f n).id = n.id) (name x : String) :
    (g.changeNode (.str name) f).find? (.str x) =
      if x = name then (g.find? (.str x)).map f else g.find? (.str x) := by
  have hfind : (g.changeNode (.str name) f).find? (.str x) =
      (g.find? (.str x)).map fun n => if Data.same n.id (.str name) then f n else n := by
    unfold changeNode find?
    simp only [List.find?_map]
    congr 2
    funext n
    exact congrArg (Data.same · (.str x)) (id_changed hf _ n)
  rw [hfind]
  cases hx : g.find? (.str x) with
  | none => simp
  | some n =>
    have hsame : (Data.same n.id (.str name) = true) = (x = name) := by
      rw [Data.same_str, id_of_find? hx, Json.str.injEq]
    simp only [Option.map_some, hsame]
    split <;> rfl

/-- A node at the end of a graph that does not have it. -/
def append (g : Digraph) (n : GraphNode) : Digraph := ⟨g.nodes ++ [n]⟩

theorem find?_append (hnew : g.find? (.str name) = none) (hn : n.id = .str name) (x : String) :
    (g.append n).find? (.str x) = if x = name then some n else g.find? (.str x) := by
  unfold append find?
  rw [List.find?_append]
  by_cases hx : x = name
  · subst hx
    rw [if_pos rfl]
    unfold find? at hnew
    simp only [hnew, Option.none_or, List.find?_cons, hn, Data.same_str.mpr rfl]
  · have hother : Data.same n.id (.str x) = false := hn ▸ Data.same_str_of_ne fun h => hx h.symm
    simp only [if_neg hx, List.find?_cons, hother, List.find?_nil, Option.or_none]

/-- A graph with a node, which carries nothing if it is new. -/
def bring (g : Digraph) (name : String) : Digraph :=
  if g.hasNode (.str name) then g else g.append ⟨.str name, [], []⟩

theorem withNode_eq (name : String) : g.withNode (.str name) = .ok (g.bring name) :=
  withNode_of_node ⟨rfl, nofun⟩

theorem find?_bring (name x : String) :
    (g.bring name).find? (.str x) =
      if x = name then some ((g.find? (.str x)).getD ⟨.str name, [], []⟩)
        else g.find? (.str x) := by
  unfold bring
  split
  · next h =>
    split
    · next hx =>
      subst hx
      obtain ⟨n, hn⟩ := Option.isSome_iff_exists.mp h
      rw [hn, Option.getD_some]
    · rfl
  · next h =>
    have hnew : g.find? (.str name) = none := Option.not_isSome_iff_eq_none.mp h
    rw [find?_append hnew rfl]
    split
    · next hx => rw [hx, hnew, Option.getD_none]
    · rfl

theorem edgeTo_cons (e : Json × Attributes) (edges : List (Json × Attributes)) (x : String) :
    edgeTo (e :: edges) x = if Data.same e.1 (.str x) then some e.2 else edgeTo edges x := by
  unfold edgeTo
  rw [List.find?_cons]
  cases Data.same e.1 (.str x) <;> rfl

theorem edgeTo_putEdgeInto (target : String) (key : String) (value : Json)
    (edges : List (Json × Attributes)) (x : String) :
    edgeTo (putEdgeInto (.str target) key value edges) x =
      if x = target then some (Json.put ((edgeTo edges x).getD []) key value)
        else edgeTo edges x := by
  induction edges with
  | nil =>
    rw [putEdgeInto, edgeTo_cons]
    by_cases hx : x = target
    · rw [if_pos hx, if_pos (Data.same_str.mpr (congrArg Json.str hx.symm))]
      rfl
    · rw [if_neg hx, if_neg (by rw [Data.same_str_of_ne (Ne.symm hx)]; exact Bool.false_ne_true)]
  | cons e edges ih =>
    rw [putEdgeInto]
    by_cases he : Data.same e.1 (.str target) = true
    · rw [if_pos he, edgeTo_cons, edgeTo_cons]
      by_cases hx : x = target
      · subst hx
        rw [if_pos rfl, if_pos he, if_pos he]
        rfl
      · have hother : Data.same e.1 (.str x) = false := by
          rw [Data.same_str.mp he]
          exact Data.same_str_of_ne (Ne.symm hx)
        simp only [hother, Bool.false_eq_true, if_false, if_neg hx]
    · rw [if_neg he, edgeTo_cons, edgeTo_cons, ih]
      by_cases hx : Data.same e.1 (.str x) = true
      · have hne : x ≠ target := by
          rintro rfl
          exact he hx
        rw [if_pos hx, if_pos hx, if_neg hne]
      · rw [if_neg hx, if_neg hx]

/-- A graph with an edge between two nodes, which are brought in if they are not there. -/
def join (g : Digraph) (source target : String) (value : Json) : Digraph :=
  ((g.bring source).bring target).changeNode (.str source) fun n =>
    { n with edges := putEdgeInto (.str target) "weight" value n.edges }

theorem putEdge_eq (source target : String) (value : Json) :
    (g.bring source).putEdge (.str source) (.str target) "weight" value =
      .ok (g.join source target value) := by
  have hagain : (g.bring source).bring source = g.bring source := by
    have hnode : (g.bring source).hasNode (.str source) = true := by
      rw [hasNode, find?_bring, if_pos rfl]
      rfl
    rw [bring.eq_def (g.bring source), if_pos hnode]
  unfold putEdge
  rw [withNode_eq, hagain]
  simp only [bind, Except.bind, withNode_eq]
  rfl

theorem find?_join (source target : String) (value : Json) (x : String) :
    (g.join source target value).find? (.str x) =
      let n := (g.find? (.str x)).getD ⟨.str x, [], []⟩
      if x = source then some { n with edges := putEdgeInto (.str target) "weight" value n.edges }
      else if x = target then some n else g.find? (.str x) := by
  unfold join
  rw [find?_changeNode, find?_bring, find?_bring]
  · by_cases hs : x = source
    · subst hs
      by_cases ht : x = target
      · subst ht
        simp
      · simp [ht]
    · by_cases ht : x = target
      · subst ht
        simp [hs]
      · simp [hs, ht]
  · intro n
    rfl

theorem outline_join (source target : String) (weight : Json) :
    (g.join source target weight).outline = g.outline.join source target weight := by
  refine Outline.ext (funext fun x => ?_) (funext fun x => funext fun y => ?_)
  · show (g.join source target weight).attributesOf x =
      ite _ (some ((g.attributesOf x).getD [])) (g.attributesOf x)
    unfold attributesOf
    rw [find?_join]
    by_cases hs : x = source
    · cases g.find? (.str x) <;> simp [hs]
    · by_cases ht : x = target
      · rw [if_neg hs, if_pos ht, if_pos (.inr ht)]
        cases g.find? (.str x) <;> rfl
      · simp [hs, ht]
  · show (g.join source target weight).attributesBetween x y =
      ite _ (some (Json.put ((g.attributesBetween x y).getD []) "weight" weight))
        (g.attributesBetween x y)
    have hfresh : edgeTo [] y = none := rfl
    unfold attributesBetween
    rw [find?_join]
    by_cases hs : x = source
    · cases g.find? (.str x) <;> simp [hs, edgeTo_putEdgeInto, hfresh]
    · by_cases ht : x = target
      · rw [if_neg hs, if_pos ht, if_neg fun h => hs h.1]
        cases g.find? (.str x) <;> rfl
      · simp [hs, ht]

/-- A node that is there is changed in what it carries. -/
theorem outline_changeNode {attributes : Attributes} (hold : g.attributesOf name = some attributes)
    (f : Attributes → Attributes) :
    (g.changeNode (.str name) fun n => { n with attributes := f n.attributes }).outline =
      g.outline.describe name (f attributes) := by
  refine Outline.ext (funext fun x => ?_) (funext fun x => funext fun y => ?_)
  · show Option.map _ (find? _ _) = ite _ (some (f attributes)) (g.attributesOf x)
    rw [find?_changeNode fun n => by rfl]
    by_cases hx : x = name
    · rw [if_pos hx, if_pos hx, hx, Option.map_map]
      obtain ⟨n, hn, rfl⟩ := Option.map_eq_some_iff.mp hold
      rw [hn]
      rfl
    · rw [if_neg hx, if_neg hx]
      rfl
  · show Option.bind (find? _ _) _ = g.attributesBetween x y
    rw [find?_changeNode fun n => by rfl]
    split
    · unfold attributesBetween
      cases g.find? (.str x) <;> rfl
    · rfl

/-- A node that is not there is new. -/
theorem outline_append (hnew : g.attributesOf name = none) (attributes : Attributes) :
    (g.append ⟨.str name, attributes, []⟩).outline = g.outline.describe name attributes := by
  have hnone : g.find? (.str name) = none := Option.map_eq_none_iff.mp hnew
  refine Outline.ext (funext fun x => ?_) (funext fun x => funext fun y => ?_)
  · show Option.map _ (find? _ _) = ite _ (some attributes) (g.attributesOf x)
    rw [find?_append hnone rfl]
    split <;> rfl
  · show Option.bind (find? _ _) _ = g.attributesBetween x y
    rw [find?_append hnone rfl]
    split
    · next hx =>
      rw [attributesBetween, hx, hnone]
      rfl
    · rfl

/-! ## Graphs without double nodes -/

/-- The texts of a list, none of them twice. -/
def Distinct (ids : List Json) : Prop := ∃ names : List String, names.Nodup ∧
    ids = names.map Json.str

/-- The nodes are texts, and so are the ends of the edges that leave a node; none is there twice. -/
structure Named (g : Digraph) : Prop where
  nodes : Distinct (g.nodes.map (·.id))
  edges : ∀ n ∈ g.nodes, Distinct (n.edges.map (·.1))

theorem named_empty : Named .empty := ⟨⟨[], List.nodup_nil, rfl⟩, nofun⟩

theorem distinct_append {ids : List Json} (h : Distinct ids) (hnew : .str name ∉ ids) :
    Distinct (ids ++ [.str name]) := by
  obtain ⟨names, hnodup, rfl⟩ := h
  refine ⟨names ++ [name], List.nodup_append.mpr ⟨hnodup, List.nodup_singleton _, ?_⟩,
    by rw [List.map_append]; rfl⟩
  intro x hx y hy heq
  rw [List.mem_singleton.mp hy] at heq
  exact hnew (List.mem_map.mpr ⟨x, hx, by rw [heq]⟩)

theorem Named.append (h : g.Named) (hnew : g.find? (.str name) = none) (attributes : Attributes) :
    (g.append ⟨.str name, attributes, []⟩).Named := by
  have hnone : .str name ∉ g.nodes.map (·.id) := by
    rintro hmem
    obtain ⟨n, hn, hid⟩ := List.mem_map.mp hmem
    exact List.find?_eq_none.mp hnew n hn (Data.same_str.mpr hid)
  refine ⟨?_, ?_⟩
  · unfold Digraph.append
    rw [List.map_append]
    exact distinct_append h.nodes hnone
  · exact List.forall_mem_append.mpr ⟨h.edges,
      List.forall_mem_singleton.mpr ⟨[], List.nodup_nil, rfl⟩⟩

theorem Named.bring (h : g.Named) (name : String) : (g.bring name).Named := by
  unfold Digraph.bring
  split
  · exact h
  · next hnode => exact h.append (Option.not_isSome_iff_eq_none.mp hnode) []

theorem Named.changeNode (h : g.Named) (id : Json) (hid : ∀ n, (f n).id = n.id)
    (hf : ∀ n ∈ g.nodes, Distinct ((f n).edges.map (·.1))) : (g.changeNode id f).Named := by
  refine ⟨by rw [map_id_changeNode id f hid]; exact h.nodes, fun n hn => ?_⟩
  obtain ⟨n₀, hn₀, rfl⟩ := mem_changeNode hn
  split
  · exact hf n₀ hn₀
  · exact h.edges n₀ hn₀

theorem Named.setAttributes (h : g.Named) (name : String) (f : Attributes → Attributes) :
    (g.changeNode (.str name) fun n => { n with attributes := f n.attributes }).Named :=
  h.changeNode _ (fun _ => rfl) fun n hn => h.edges n hn

theorem distinct_putEdgeInto (target key : String) (value : Json) {edges : List (Json × Attributes)}
    (h : Distinct (edges.map (·.1))) :
    Distinct ((putEdgeInto (.str target) key value edges).map (·.1)) := by
  rcases putEdgeInto_cases (.str target) key value edges with ⟨hnew, heq⟩ | ⟨before, e,
    after, rfl, -, heq⟩
  · rw [heq, List.map_append]
    refine distinct_append h fun hmem => ?_
    obtain ⟨e, he, hend⟩ := List.mem_map.mp hmem
    exact Bool.eq_false_iff.mp (hnew e he) (Data.same_str.mpr hend)
  · rw [heq]
    simpa using h

theorem Named.join (h : g.Named) (source target : String) (value : Json) :
    (g.join source target value).Named := by
  have hboth := (h.bring source).bring target
  exact hboth.changeNode _ (fun _ => rfl) fun n hn => distinct_putEdgeInto target "weight" value
    (hboth.edges n hn)

/-- In a list of distinct texts each one is found. -/
theorem find?_of_mem {α : Type} {xs : List α} {f : α → Json} (h : Distinct (xs.map f)) {x : α}
    (hx : x ∈ xs) :
    ∃ name, f x = .str name ∧ xs.find? (fun y => Data.same (f y) (.str name)) = some x := by
  obtain ⟨names, hnodup, hnames⟩ := h
  induction xs generalizing names with
  | nil => cases hx
  | cons y xs ih =>
    match names, hnames, hnodup with
    | name :: names, hnames, hnodup =>
      rw [List.map_cons, List.map_cons, List.cons.injEq] at hnames
      obtain ⟨hnew, hnodup'⟩ := List.nodup_cons.mp hnodup
      rcases List.mem_cons.mp hx with rfl | hx
      · refine ⟨name, hnames.1, ?_⟩
        rw [List.find?_cons, Data.same_str.mpr hnames.1]
      · obtain ⟨name', hid, hfind⟩ := ih hx names hnodup' hnames.2
        refine ⟨name', hid, ?_⟩
        have hne : name ≠ name' := by
          rintro rfl
          have hmem : .str name ∈ xs.map f := List.mem_map.mpr ⟨x, hx, hid⟩
          rw [hnames.2] at hmem
          obtain ⟨k, hk, heq⟩ := List.mem_map.mp hmem
          cases heq
          exact hnew hk
        rw [List.find?_cons, hnames.1, Data.same_str_of_ne hne]
        exact hfind

/-- A node is there just if its name is found. -/
theorem Named.mem_nodes (h : g.Named) (hn : n ∈ g.nodes) :
    ∃ name, n.id = .str name ∧ g.find? (.str name) = some n :=
  find?_of_mem h.nodes hn

/-- All edges are those that are read between names. -/
theorem Named.mem_edges_iff (h : g.Named) {e : Json × Json × Attributes} :
    e ∈ g.edges ↔ ∃ source target, e.1 = .str source ∧ e.2.1 = .str target ∧
      g.attributesBetween source target = some e.2.2 := by
  unfold Digraph.edges
  rw [List.mem_flatMap]
  constructor
  · rintro ⟨n, hn, he⟩
    obtain ⟨edge, hedge, rfl⟩ := List.mem_map.mp he
    obtain ⟨source, hid, hfind⟩ := h.mem_nodes hn
    obtain ⟨target, htarget, hfound⟩ := find?_of_mem (h.edges n hn) hedge
    refine ⟨source, target, hid, htarget, ?_⟩
    rw [attributesBetween, hfind, Option.bind_some, edgeTo, hfound]
    rfl
  · rintro ⟨source, target, hsource, htarget, hbetween⟩
    obtain ⟨n, hfind, hedge⟩ := Option.bind_eq_some_iff.mp hbetween
    obtain ⟨edge, hfound, hattributes⟩ := Option.map_eq_some_iff.mp hedge
    refine ⟨n, List.mem_of_find?_eq_some hfind,
      List.mem_map.mpr ⟨edge, List.mem_of_find?_eq_some hfound, ?_⟩⟩
    have hend : edge.1 = .str target := by
      have hsame := List.find?_some hfound
      exact Data.same_str.mp hsame
    rw [id_of_find? hfind, hend, hattributes, ← hsource, ← htarget]

/-- What holds of all nodes holds of what is read under each name. -/
theorem Named.forall_nodes_iff (h : g.Named) :
    (∀ n ∈ g.nodes, P n.attributes) ↔ ∀ name attributes, g.attributesOf name = some attributes →
    P attributes := by
  constructor
  · intro hall name attributes hname
    obtain ⟨n, hfind, rfl⟩ := Option.map_eq_some_iff.mp hname
    exact hall n (List.mem_of_find?_eq_some hfind)
  · intro hall n hn
    obtain ⟨name, -, hfind⟩ := h.mem_nodes hn
    exact hall name n.attributes (by rw [attributesOf, hfind]; rfl)

theorem Named.forall_edges_iff (h : g.Named) :
    (∀ e ∈ g.edges, P e.2.2) ↔
      ∀ source target attributes, g.attributesBetween source target = some attributes →
      P attributes := by
  constructor
  · intro hall source target attributes hbetween
    exact hall (.str source, .str target, attributes)
      (h.mem_edges_iff.mpr ⟨source, target, rfl, rfl, hbetween⟩)
  · intro hall e he
    obtain ⟨source, target, -, -, hbetween⟩ := h.mem_edges_iff.mp he
    exact hall source target e.2.2 hbetween

end Digraph

end Coupling
