import Coupling.Proofs.CallGraphs
import Coupling.Trace.Session

/-!
# Nodes that carry nothing

A node of a call graph carries its count, time, kind and weight if a span emits it. A span that is
looked up as a parent brings in a node too, which carries nothing unless some span emits it. The
name under which a span is looked up is not always one that it emits (`keepsName_iff` has the exact
condition), and of a graph with a node that carries nothing no page can be made
(`page_exists_iff_described`).
-/

namespace Coupling.Trace

open Steps

/-! ## Spans that keep their names -/

variable {find : TableFinder} {apis span : Json} {name : String}

/-- A span is visited under the name under which it is looked up as a parent. Spans of the
connection pool are not visited at all. An entry is visited under its template, but is looked up
under it only at the root of a segment; any other span is looked up under its template there, but is
not visited under it; a database span is visited under its tables. -/
def KeepsName [PatternReader] (find : TableFinder) (apis span : Json) (name : String) : Prop :=
  ignored.contains (Text.before name '/') = false ∧
    if hasField span "type" (.str "Entry") then hasNumber (.int 0) span = true ∨
    templated apis name = name
    else if hasField span "layer" (.str "Database") then
      (if hasNumber (.int 0) span then templated apis name else name) ∈ tablesOf find span name
    else hasNumber (.int 0) span = false ∨ templated apis name = name

theorem keepsName_iff [PatternReader] {r : Option (List SpanNode)} {id : String}
    (hname : Data.member span "endpointName" = .ok (.str name))
    (hread : spanNodes find apis span = .ok r) (hparent : parentName apis span = .ok (.str id)) :
    (∃ n ∈ emitted find apis span, n.name = id) ↔ KeepsName find apis span name := by
  have hmem : (∃ n ∈ emitted find apis span, n.name = id) ↔
      id ∈ (emitted find apis span).map (·.name) :=
    List.mem_map.symm
  rw [hmem, map_name_emitted hname hread, nodeId_eq hname hparent, KeepsName]
  cases ignored.contains (Text.before name '/') with
  | true => simp
  | false =>
    cases hasField span "type" (.str "Entry") <;> cases hasField span "layer" (.str "Database") <;>
      cases hasNumber (.int 0) span <;> simp [eq_comm]

/-! ## Pages -/

/-- What a node must carry to be drawn: a count that can be divided, and a kind. -/
def NodeDrawable (attributes : Attributes) : Prop :=
  (∃ count, Data.member (.obj attributes) "count" = .ok count ∧
    ∃ x, Data.divideAndAdd count 5 30 = .ok x) ∧
    ∃ kind, Data.member (.obj attributes) "type" = .ok kind

/-- What an edge must carry to be drawn: a weight that can be divided. -/
def EdgeDrawable (attributes : Attributes) : Prop :=
  ∃ weight, Data.member (.obj attributes) "weight" = .ok weight ∧
  ∃ x, Data.divideAndAdd weight 2 1 = .ok x

theorem exists_link_iff (e : Json × Json × Attributes) :
    (∃ j, Chart.link e = .ok j) ↔ EdgeDrawable e.2.2 := by
  constructor
  · rintro ⟨j, h⟩
    obtain ⟨weight, hweight, h⟩ := except_bind_eq_ok.mp h
    obtain ⟨x, hx, -⟩ := except_bind_eq_ok.mp h
    exact ⟨weight, hweight, x, hx⟩
  · rintro ⟨weight, hweight, x, hx⟩
    exact ⟨_, except_bind_eq_ok.mpr ⟨weight, hweight, except_bind_eq_ok.mpr ⟨x, hx, rfl⟩⟩⟩

/-- A page can be made if all nodes and all edges can be drawn. -/
theorem exists_page_iff (s : Session) : (∃ text, s.page = .ok text) ↔
    (∀ n ∈ s.calls.graph.nodes, NodeDrawable n.attributes) ∧ ∀ e ∈ s.calls.graph.edges,
    EdgeDrawable e.2.2 := by
  constructor
  · rintro ⟨text, h⟩
    obtain ⟨nodes, hnodes, h⟩ := except_bind_eq_ok.mp h
    obtain ⟨links, hlinks, -⟩ := except_bind_eq_ok.mp h
    refine ⟨fun n hn => ?_, fun e he => (exists_link_iff e).mp
      (exists_mapM_iff.mp ⟨links, hlinks⟩ e he)⟩
    obtain ⟨j, hj⟩ := exists_mapM_iff.mp ⟨nodes, hnodes⟩ n hn
    obtain ⟨count, hcount, hj⟩ := except_bind_eq_ok.mp hj
    obtain ⟨size, hsize, hj⟩ := except_bind_eq_ok.mp hj
    obtain ⟨x, hx, -⟩ := except_bind_eq_ok.mp hsize
    obtain ⟨kind, hkind, -⟩ := except_bind_eq_ok.mp hj
    exact ⟨⟨count, hcount, x, hx⟩, kind, hkind⟩
  · rintro ⟨hnodes, hedges⟩
    refine exists_except_bind (exists_mapM_iff.mpr fun n hn => ?_) fun nodes _ =>
      exists_except_bind (exists_mapM_iff.mpr fun e he => (exists_link_iff e).mpr (hedges e he))
        fun links _ => ⟨_, rfl⟩
    obtain ⟨⟨count, hcount, x, hx⟩, kind, hkind⟩ := hnodes n hn
    exact ⟨_, except_bind_eq_ok.mpr ⟨count, hcount, except_bind_eq_ok.mpr
      ⟨_, except_bind_eq_ok.mpr ⟨x, hx, rfl⟩, except_bind_eq_ok.mpr ⟨kind, hkind, rfl⟩⟩⟩⟩

variable {vs : List Visit} {w : Outline}

theorem nodeDrawable_description {first : SpanNode} {time : Json} {count : Nat} :
    NodeDrawable (description first time count) ↔ count / 5 < Data.tooLarge := by
  constructor
  · rintro ⟨⟨count', hcount, hx⟩, -⟩
    cases hcount
    exact (Data.exists_divideAndAdd_iff.mp hx).2 (Data.isWhole_int _)
  · intro h
    exact ⟨⟨_, rfl, Data.exists_divideAndAdd_iff.mpr ⟨rfl, fun _ => h⟩⟩, _, rfl⟩

theorem not_nodeDrawable_nil : ¬NodeDrawable [] := by
  rintro ⟨⟨_, h, _⟩, -⟩
  cases h

/-- The nodes of a graph can be drawn if all that called were visited, and not too often. -/
theorem Aggregates.nodes_drawable_iff (h : Aggregates vs w) :
    (∀ name attributes, w.nodes name = some attributes → NodeDrawable attributes) ↔
      (∀ name, isCaller vs name = true → called vs name ≠ []) ∧
      ∀ name, (called vs name).length / 5 < Data.tooLarge := by
  constructor
  · intro hall
    refine ⟨fun name hcaller hnil => ?_, fun name => ?_⟩
    · refine not_nodeDrawable_nil (hall name [] ?_)
      rw [h.bare _ hnil, if_pos hcaller]
    · by_cases hname : called vs name = []
      · rw [hname]
        exact Data.lt_tooLarge_of_lt (by decide +kernel)
      · obtain ⟨first, time, -, hnode⟩ := h.exists_description hname
        exact nodeDrawable_description.mp (hall name _ hnode)
  · rintro ⟨hcallers, hcounts⟩ name attributes hnode
    by_cases hname : called vs name = []
    · rw [h.bare _ hname, if_neg fun hcaller => hcallers name hcaller hname] at hnode
      cases hnode
    · obtain ⟨first, time, -, hnode'⟩ := h.exists_description hname
      cases hnode'.symm.trans hnode
      exact nodeDrawable_description.mpr (hcounts name)

/-- The edges of a graph can be drawn if they do not weigh too much. -/
theorem Aggregates.edges_drawable_iff (h : Aggregates vs w)
    (hnumbers : ∀ v ∈ vs, ∀ call ∈ v.call, (Data.number? call.2).isSome) :
    (∀ source target attributes, w.edges source target = some attributes →
      EdgeDrawable attributes) ↔
      ∀ source target weight, Data.total (crossings vs source target) = .ok weight →
        (Data.wholeOf weight).natAbs / 2 < Data.tooLarge := by
  constructor
  · intro hall source target weight hweight
    by_cases hnil : crossings vs source target = []
    · rw [hnil] at hweight
      cases hweight
      exact Data.lt_tooLarge_of_lt (by decide +kernel)
    · obtain ⟨weight', hweight', hedge⟩ := h.joined _ _ hnil
      cases hweight'.symm.trans hweight
      obtain ⟨weight', hmember, hx⟩ := hall source target _ hedge
      cases hmember
      by_cases hwhole : Data.IsWhole weight
      · exact (Data.exists_divideAndAdd_iff.mp hx).2 hwhole
      · rw [Data.wholeOf_of_not_isWhole hwhole]
        exact Data.lt_tooLarge_of_lt (by decide +kernel)
  · intro hall source target attributes hedge
    by_cases hnil : crossings vs source target = []
    · rw [h.apart _ _ hnil] at hedge
      cases hedge
    · obtain ⟨weight, hweight, hedge'⟩ := h.joined _ _ hnil
      cases hedge'.symm.trans hedge
      refine ⟨weight, rfl, Data.exists_divideAndAdd_iff.mpr ⟨?_, fun _ =>
        hall source target weight hweight⟩⟩
      refine Data.isSome_number?_total (fun j hj => ?_) hweight
      obtain ⟨v, hv, hcross⟩ := List.mem_filterMap.mp hj
      exact hnumbers v hv _ (crossing_eq_some hcross).1

/-! ## Calls weigh numbers -/

variable {weight : Json} {spans : List Json} {traces : List (List Json)}

theorem isSome_number?_passOn (h : (Data.number? weight).isSome) (n : SpanNode) :
    (Data.number? (passOn weight n)).isSome := by
  unfold passOn SpanNode.sets
  split
  · split
    · next hpositive => exact Data.isSome_number?_of_isPositive hpositive
    · exact h
  · exact h

theorem numbers_visitsFrom [PatternReader] (h : (Data.number? weight).isSome) (ns : List SpanNode) :
    ∀ v ∈ visitsFrom apis spans weight ns, ∀ call ∈ v.call, (Data.number? call.2).isSome := by
  induction ns generalizing weight with
  | nil => exact nofun
  | cons n ns ih =>
    refine List.forall_mem_cons.mpr ⟨fun call hcall => ?_, ih (isSome_number?_passOn h n)⟩
    obtain ⟨caller, -, rfl⟩ := Option.map_eq_some_iff.mp hcall
    exact h

theorem numbers_visits [PatternReader] : ∀ v ∈ visits find apis traces, ∀ call ∈ v.call,
    (Data.number? call.2).isSome := by
  intro v hv
  obtain ⟨spans, -, hv⟩ := List.mem_flatMap.mp hv
  exact numbers_visitsFrom rfl _ v hv

/-! ## Nodes that carry nothing -/

/-- A node carries all that is said of a node. -/
def Described (attributes : Attributes) : Prop :=
  ∀ key ∈ ["execution_time", "count", "type", "weight"],
  (Json.get? (.obj attributes) key).isSome = true

theorem described_description (first : SpanNode) (time : Json) (count : Nat) :
    Described (description first time count) := by
  intro key hkey
  simp only [List.mem_cons, List.not_mem_nil, or_false] at hkey
  rcases hkey with rfl | rfl | rfl | rfl <;> rfl

theorem Aggregates.described_iff (h : Aggregates vs w) {name : String} {attributes : Attributes}
    (hnode : w.nodes name = some attributes) : Described attributes ↔ called vs name ≠ [] := by
  by_cases hname : called vs name = []
  · rw [h.bare _ hname] at hnode
    split at hnode
    · cases hnode
      exact ⟨fun hdescribed => (nomatch hdescribed "count" (by simp)), fun hne => absurd hname hne⟩
    · cases hnode
  · obtain ⟨first, time, -, hnode'⟩ := h.exists_description hname
    cases hnode'.symm.trans hnode
    exact ⟨fun _ => hname, fun _ => described_description _ _ _⟩

/-- All nodes are described if all that called were visited. -/
theorem Aggregates.all_described_iff (h : Aggregates vs w) :
    (∀ name attributes, w.nodes name = some attributes → Described attributes) ↔
      ∀ name, isCaller vs name = true → called vs name ≠ [] := by
  constructor
  · intro hall name hcaller
    obtain ⟨attributes, hnode⟩ := Option.isSome_iff_exists.mp (h.isSome_nodes.mpr (.inr hcaller))
    exact (h.described_iff hnode).mp (hall name attributes hnode)
  · intro hall name attributes hnode
    refine (h.described_iff hnode).mpr ?_
    rcases h.isSome_nodes.mp (by rw [hnode]; rfl) with hname | hcaller
    · exact hname
    · exact hall name hcaller

theorem isCaller_visits_iff [PatternReader] {name : String} :
    isCaller (visits find apis traces) name = true ↔
    ∃ target, Calls find apis traces name target := by
  rw [isCaller_iff_exists]
  constructor
  · rintro ⟨v, hv, hcaller⟩
    exact ⟨v.node.name, crossings_ne_nil_iff.mp
      (crossings_ne_nil_iff_exists.mpr ⟨v, hv, rfl, hcaller⟩)⟩
  · rintro ⟨target, hcalls⟩
    obtain ⟨v, hv, -, hcaller⟩ := crossings_ne_nil_iff_exists.mp (crossings_ne_nil_iff.mpr hcalls)
    exact ⟨v, hv, hcaller⟩

theorem addTraces_of_generate [PatternReader] {s s' : Session}
    (h : s.generate find = (.ok (), s')) :
    (Build.addTraces find (s.given.getD s.templates) s.traces).run.run s.calls =
      (.ok (), s'.calls) := by
  unfold Session.generate Session.grow at h
  rcases hrun : (Build.addTraces find (s.given.getD s.templates) s.traces).run.run s.calls
    with ⟨r, calls⟩
  simp only [hrun] at h
  cases h
  rfl

/-- A parent that is looked up has a name, and is visited under it just if it keeps its name. -/
theorem parent_keepsName_iff [PatternReader] (h : Legible find apis spans) {n : SpanNode}
    (hspan : span ∈ spans)
    (hn : n ∈ emitted find apis span) {parent : Json} (hparent : parentOf spans n = some parent) :
    ∃ name id, Data.member parent "endpointName" = .ok (.str name) ∧ nodeId apis parent = some id ∧
      ((∃ m ∈ emitted find apis parent, m.name = id) ↔ KeepsName find apis parent name) := by
  unfold parentOf at hparent
  split at hparent
  · cases hparent
  · next hroot =>
    obtain ⟨r, hfound, hname⟩ := (h.nodes span hspan n hn).parent (Bool.eq_false_iff.mpr hroot)
    have hr := (findSpan_eq_ok hfound).trans hparent
    obtain ⟨id, hid⟩ := hname parent hr
    obtain ⟨r, hread⟩ := h.read parent (List.mem_of_find?_eq_some hparent)
    obtain ⟨name, hendpoint⟩ := exists_endpoint hread
    exact ⟨name, id, hendpoint, by rw [nodeId, hid], keepsName_iff hendpoint hread hid⟩

/-- A graph that was made from nothing. A parent that is looked up is visited under the name it is
looked up under just if it keeps its name. A node carries what is said of a node just if a span
emits it; so all do just if every caller is emitted by some span. And a page can be made just if all
nodes carry that, none was visited too often and no edge weighs too much to be drawn. -/
theorem page_exists_iff_described [PatternReader] {s s' : Session} (hstart : s.calls.graph = .empty)
    (hrun : s.generate find = (.ok (), s')) :
    let apis := s.given.getD s.templates
    let traces := tracesOf s.traces
    let vs := visits find apis traces
    (∀ spans ∈ traces, ∀ span ∈ spans, ∀ n ∈ emitted find apis span, ∀ parent,
      parentOf spans n = some parent →
      ∃ name id, Data.member parent "endpointName" = .ok (.str name) ∧
        nodeId apis parent = some id ∧
        ((∃ m ∈ emitted find apis parent, m.name = id) ↔ KeepsName find apis parent name)) ∧
    (∀ n ∈ s'.calls.graph.nodes, ∃ name, n.id = .str name ∧
      (Described n.attributes ↔ Emits find apis traces name)) ∧
    ((∀ n ∈ s'.calls.graph.nodes, Described n.attributes) ↔
      ∀ source target, Calls find apis traces source target → Emits find apis traces source) ∧
    ((∃ text, s'.page = .ok text) ↔
      (∀ n ∈ s'.calls.graph.nodes, Described n.attributes) ∧
      (∀ name, (called vs name).length / 5 < Data.tooLarge) ∧
      ∀ source target weight, Data.total (crossings vs source target) = .ok weight →
        (Data.wholeOf weight).natAbs / 2 < Data.tooLarge) := by
  intro apis traces vs
  have hadd := addTraces_of_generate hrun
  have hnamed := named_of_addTraces hstart hadd
  have h : Aggregates vs s'.calls.graph.outline := aggregates_of_addTraces hstart hadd
  have hall : (∀ n ∈ s'.calls.graph.nodes, Described n.attributes) ↔
      ∀ name, isCaller vs name = true → called vs name ≠ [] :=
      hnamed.forall_nodes_iff.trans h.all_described_iff
  refine ⟨fun spans hspans span hspan n hn parent hparent => ?_, fun n hn => ?_, ?_, ?_⟩
  · obtain ⟨t, ht, rfl⟩ := List.mem_map.mp hspans
    exact parent_keepsName_iff ((legible_of_addTraces hadd).traces t ht).2 hspan hn hparent
  · obtain ⟨name, hid, hfind⟩ := hnamed.mem_nodes hn
    refine ⟨name, hid, (h.described_iff ?_).trans called_ne_nil_iff⟩
    rw [Digraph.outline_nodes, Digraph.attributesOf, hfind]
    rfl
  · rw [hall]
    constructor
    · intro hcallers source target hcalls
      exact called_ne_nil_iff.mp (hcallers source (isCaller_visits_iff.mpr ⟨target, hcalls⟩))
    · intro hcalls name hcaller
      obtain ⟨target, hcall⟩ := isCaller_visits_iff.mp hcaller
      exact called_ne_nil_iff.mpr (hcalls name target hcall)
  · rw [exists_page_iff, hnamed.forall_nodes_iff, hnamed.forall_edges_iff, hall]
    have hnodes := h.nodes_drawable_iff
    have hedges := h.edges_drawable_iff numbers_visits
    exact (and_congr hnodes hedges).trans and_assoc

/-- A session with some templates and some traces. -/
def shop (templates : List Json) (traces : List (List Json)) : Session :=
  { project := "shop", templates := .arr templates, traces := tracesRecord traces }

/-- Two logins make a graph in which every node is described. -/
theorem login_nodes_described :
    let s := shop [] [loginSpans 3, loginSpans 0]
    let made := s.generate oneTable
    made = (.ok (), made.2) ∧ ∀ n ∈ made.2.calls.graph.nodes, Described n.attributes := by
  intro s made
  have hrun : made = (.ok (), made.2) := eq_ok_of_toBool (by decide +kernel)
  have hpage : ∃ text, made.2.page = .ok text := exists_of_toBool (by decide +kernel)
  obtain ⟨-, -, -, hpage_iff⟩ := page_exists_iff_described rfl hrun
  exact ⟨hrun, (hpage_iff.mp hpage).1⟩

/-- A template for the pages of users. -/
def userPages : Json := .obj [("name", .str "/users/\x7bint\x7d"), ("weight", .int 3)]

/-- A span and one that it called. -/
def calling (parent : Json) (number : Int) : List Json :=
  [parent, spanRecord (number + 1) number "Local" "Unknown" "load" (.int 1) (.int 2) []]

/-- Parents that are not visited under the name they are looked up under: an entry below the root of
its segment, a span at the root that is no entry but fits a template, a span of the connection pool,
and a database span. -/
def strangeParents : List (List Json) :=
  [spanRecord 0 (-1) "Entry" "Http" "/home" (.int 0) (.int 9) [] ::
      calling (spanRecord 1 0 "Entry" "Http" "/users/7" (.int 0) (.int 9) []) 1,
    calling (spanRecord 0 (-1) "Local" "Unknown" "/users/7" (.int 0) (.int 9) []) 0,
    calling (spanRecord 0 (-1) "Local" "Unknown" "HikariCP/Connection/getConnection" (.int 0)
      (.int 9) []) 0,
    calling (spanRecord 0 (-1) "Exit" "Database" "Mysql/query" (.int 0) (.int 9)
      [("db.type", .str "sql"), ("db.instance", .str "main"),
        ("db.statement", .str "select 1 from users")]) 0]

/-- The graph of each such trace can be made, but has a node that carries nothing, and no page can
be made of it. -/
theorem strange_parents_undescribed :
    strangeParents.all (fun spans =>
      let r := (shop [userPages] [spans]).generate oneTable
      r.1.toBool && r.2.calls.graph.nodes.any (·.attributes.isEmpty) && !r.2.page.toBool) =
        true := by
  decide +kernel

end Coupling.Trace
