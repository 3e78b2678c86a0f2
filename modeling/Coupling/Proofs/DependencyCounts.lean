import Mathlib.Data.List.Forall2
import Coupling.Graph.Dependencies
import Coupling.Proofs.NamedGraphs
import Coupling.Proofs.Numbers
import Coupling.Proofs.Steps

/-!
# What a dependency graph counts

The graph of any list of records, closed or not. Names may repeat, a symbol may depend on itself,
name another one several times or name one that has no record. Two loops make the graph: the first
gives each record's name a node with the record's members, the second counts every occurrence of a
dependency on its edge, and brings in names without a record as nodes that carry nothing.

One invariant goes through both loops (`Counts`): after some records and some occurrences, the nodes
are the names met so far, each carries the members of the last record for it, and each edge weighs
as much as it has occurred. So the whole graph is known from the records (`addAll_counts`). The page
asks every node for a color, and a node without a record has none (`page_of_unknown`).

Names need not be texts. They are compared as values, so that a whole number and a truth value can
be one node. What that takes is said by `Data.Comparable`; nothing, a list or a record is no name of
a node.
-/

namespace Coupling

open Steps

/-! ## Names as values -/

/-- Values that can be nodes, and that are sorted by equality. -/
structure Data.Comparable (names : List Json) : Prop where
  node : ∀ a ∈ names, Data.isKey a = true ∧ a ≠ .null
  refl : ∀ a ∈ names, Data.same a a = true
  symm : ∀ a ∈ names, ∀ b ∈ names, Data.same a b = true → Data.same b a = true
  trans : ∀ a ∈ names, ∀ b ∈ names, ∀ c ∈ names, Data.same a b = true → Data.same b c = true →
    Data.same a c = true

namespace Data.Comparable

variable {names : List Json} {a b c : Json}

section

variable (h : Comparable names) (ha : a ∈ names) (hb : b ∈ names)
include h ha hb

theorem congr_left (hc : c ∈ names) (hab : same a b = true) : same a c = same b c := by
  rw [Bool.eq_iff_iff]
  exact ⟨h.trans b hb a ha c hc (h.symm a ha b hb hab), h.trans a ha b hb c hc hab⟩

theorem congr_right (hc : c ∈ names) (hab : same a b = true) : same c a = same c b := by
  rw [Bool.eq_iff_iff]
  exact ⟨fun hca => h.trans c hc a ha b hb hca hab, fun hcb =>
    h.trans c hc b hb a ha hcb (h.symm a ha b hb hab)⟩

theorem same_comm : same a b = same b a := by
  rw [Bool.eq_iff_iff]
  exact ⟨h.symm a ha b hb, h.symm b hb a ha⟩

end

/-- Texts, whole numbers and truth values are compared exactly. -/
theorem of_exact (h : ∀ a ∈ names, (∃ s, a = .str s) ∨ (∃ n, a = .int n) ∨ ∃ b, a = .bool b) :
    Comparable names := by
  have hsame {a b : Json} (ha : a ∈ names) (hb : b ∈ names) :
      same a b = true ↔ number? a = number? b ∧ a.str? = b.str? := by
    rcases h a ha with ⟨s, rfl⟩ | ⟨n, rfl⟩ | ⟨x, rfl⟩ <;> rcases h b hb with ⟨t, rfl⟩ | ⟨m,
      rfl⟩ | ⟨y, rfl⟩ <;>
      simp [same, sameNumber, number?, Number.same, Json.str?]
  refine ⟨fun a ha => ?_, fun a ha => (hsame ha ha).mpr ⟨rfl, rfl⟩, fun a ha b hb hab => ?_,
    fun a ha b hb c hc hab hbc => ?_⟩
  · rcases h a ha with ⟨s, rfl⟩ | ⟨n, rfl⟩ | ⟨x, rfl⟩ <;> exact ⟨rfl, by simp⟩
  · obtain ⟨hnumber, htext⟩ := (hsame ha hb).mp hab
    exact (hsame hb ha).mpr ⟨hnumber.symm, htext.symm⟩
  · obtain ⟨hnumber, htext⟩ := (hsame ha hb).mp hab
    obtain ⟨hnumber', htext'⟩ := (hsame hb hc).mp hbc
    exact (hsame ha hc).mpr ⟨hnumber.trans hnumber', htext.trans htext'⟩

end Data.Comparable

namespace Dependencies

/-! ## What records say -/

def nameOf (j : Json) : Json := j.getD "full_name" .null

/-- What a record runs through as its dependencies. -/
def targetsOf (j : Json) : List Json := (Data.items (j.getD "dependency" .null)).toOption.getD []

/-- The members of a record that its node carries. -/
def fieldsOf (j : Json) : Attributes :=
  keptMembers.map (fun k => (k, j.getD k .null)) ++
    [("color", .str (((j.getD "sym_type" .null).str?.bind fun k => colors.lookup k).getD
      "#f8ac59"))]

/-- The last record with a name. -/
def lastNamed (records : List Json) (name : Json) : Option Json :=
  (records.filter fun j => Data.same (nameOf j) name).getLast?

/-- What the node of a name carries: the members of the last record, or nothing if there is none. -/
def carriedBy (records : List Json) (name : Json) : Attributes :=
  ((lastNamed records name).map fieldsOf).getD []

/-- The dependencies of records, each with the name it belongs to, as often as they occur. -/
def occurrences (js : List Json) : List (Json × Json) :=
  js.flatMap fun j => (targetsOf j).map (nameOf j, ·)

/-- How often a name occurs as a dependency of another. -/
def times (pairs : List (Json × Json)) (source target : Json) : Nat :=
  pairs.countP fun p => Data.same p.1 source && Data.same p.2 target

/-- The names of records and of their dependencies. -/
def namesIn (js : List Json) : List Json := js.map nameOf ++ js.flatMap targetsOf

theorem length_occurrences (js : List Json) :
    (occurrences js).length = (js.flatMap targetsOf).length := by
  unfold occurrences
  simp only [List.length_flatMap, List.length_map]

variable {j : Json} {α β : Type} {ids js : List Json} {e : Json × Json × Attributes} {w : Nat}
  {f : α → Data.Result β}
  {xs : List α}

theorem member_getD {v : Json} {k : String} (h : Data.member j k = .ok v) : j.getD k .null = v := by
  unfold Data.member at h
  unfold Json.getD Json.get?
  cases j with
  | obj ms =>
    simp only at h ⊢
    cases hfind : ms.find? (·.1 == k) with
    | none => simp [hfind] at h
    | some m =>
      rw [hfind] at h
      cases h
      rfl
  | _ => cases h

theorem color_eq {kind c : Json} (h : color kind = .ok c) :
    c = .str ((kind.str?.bind fun k => colors.lookup k).getD "#f8ac59") := by
  unfold color Data.key at h
  cases kind <;> simp_all [Data.isKey, bind, Except.bind, pure, Except.pure, Json.str?]

/-- Where each result is known, so are all. -/
theorem eq_map_of_mapM {g : α → β} (hf : ∀ a b, f a = .ok b → b = g a) {ys : List β}
    (h : xs.mapM f = .ok ys) :
    ys = xs.map g := by
  induction xs generalizing ys with
  | nil =>
    cases h
    rfl
  | cons x xs ih =>
    rw [List.mapM_cons] at h
    obtain ⟨y, hy, h⟩ := except_bind_eq_ok.mp h
    obtain ⟨zs, hzs, h⟩ := except_bind_eq_ok.mp h
    cases h
    rw [hf x y hy, ih hzs, List.map_cons]

/-- A record that is taken is one of its kept members and its color. -/
theorem record_eq {r : Json} (h : record j = .ok r) : r = .obj (fieldsOf j) := by
  obtain ⟨kept, hkept, h⟩ := except_bind_eq_ok.mp h
  obtain ⟨kind, hkind, h⟩ := except_bind_eq_ok.mp h
  obtain ⟨c, hc, h⟩ := except_bind_eq_ok.mp h
  cases h
  have hmembers : kept = keptMembers.map fun k => (k, j.getD k .null) := by
    refine eq_map_of_mapM (fun k m hm => ?_) hkept
    obtain ⟨v, hv, hm⟩ := except_bind_eq_ok.mp hm
    cases hm
    rw [member_getD hv]
  rw [hmembers, color_eq hc, ← member_getD hkind]
  rfl

theorem putAll_fieldsOf (i j : Json) : Digraph.putAll (fieldsOf i) (fieldsOf j) = fieldsOf j := by
  simp [Digraph.putAll, fieldsOf, keptMembers, Json.put]

theorem putAll_nil_fieldsOf (j : Json) : Digraph.putAll [] (fieldsOf j) = fieldsOf j := by
  simp [Digraph.putAll, fieldsOf, keptMembers, Json.put]

/-! ## The invariant -/

/-- The edges of a node count the occurrences of its name with others. -/
structure CountsEdges (pairs : List (Json × Json)) (n : GraphNode) : Prop where
  distinct : (n.edges.map (·.1)).Pairwise fun a b => Data.same a b = false
  weight : ∀ e ∈ n.edges, e.1 ∈ pairs.map (·.2) ∧ 0 < times pairs n.id e.1 ∧
    e.2 = [("weight", .int (times pairs n.id e.1))]
  present : ∀ p ∈ pairs, Data.same p.1 n.id = true → ∃ e ∈ n.edges, Data.same e.1 p.2 = true

/-- A graph when some names are met, and some records and some occurrences of dependencies taken:
its nodes are the names, none of them twice, each with the members of the last record for it, and
its edges count the occurrences. -/
structure Counts (met records : List Json) (pairs : List (Json × Json)) (g : Digraph) : Prop where
  named : ∀ n ∈ g.nodes, n.id ∈ met
  present : ∀ x ∈ met, ∃ n ∈ g.nodes, Data.same n.id x = true
  distinct : (g.nodes.map (·.id)).Pairwise fun a b => Data.same a b = false
  carries : ∀ n ∈ g.nodes, n.attributes = carriedBy records n.id
  edges : ∀ n ∈ g.nodes, CountsEdges pairs n

theorem counts_empty : Counts [] [] [] .empty := ⟨nofun, nofun, .nil, nofun, nofun⟩

theorem times_concat (pairs : List (Json × Json)) (p : Json × Json) (source target : Json) :
    times (pairs ++ [p]) source target =
      times pairs source target +
        if Data.same p.1 source && Data.same p.2 target then 1 else 0 := by
  unfold times
  rw [List.countP_append, List.countP_singleton]

theorem times_pos_iff {pairs : List (Json × Json)} {source target : Json} :
    0 < times pairs source target ↔ ∃ p ∈ pairs, Data.same p.1 source = true ∧
    Data.same p.2 target = true := by
  unfold times
  simp only [List.countP_pos_iff, Bool.and_eq_true]

theorem lastNamed_concat (records : List Json) (j name : Json) :
    lastNamed (records ++ [j]) name = if Data.same (nameOf j) name then some j
      else lastNamed records name := by
  unfold lastNamed
  rw [List.filter_append, List.getLast?_append]
  by_cases h : Data.same (nameOf j) name = true
  · simp [h]
  · simp [h]

theorem lastNamed_eq_none {records : List Json} {name : Json} :
    lastNamed records name = none ↔ ∀ j ∈ records, Data.same (nameOf j) name = false := by
  unfold lastNamed
  rw [List.getLast?_eq_none_iff, List.filter_eq_nil_iff]
  simp

/-- Names with one more, unless it is among them. -/
def entered (ids : List Json) (x : Json) : List Json :=
  if ids.any fun a => Data.same a x then ids else ids ++ [x]

/-- Different names are all entered. -/
theorem foldl_entered_new {xs : List Json}
    (h : (ids ++ xs).Pairwise fun a b => Data.same a b = false) :
    xs.foldl entered ids = ids ++ xs := by
  induction xs generalizing ids with
  | nil => exact (List.append_nil ids).symm
  | cons x xs ih =>
    have hnew : (ids.any fun a => Data.same a x) = false := by
      rw [List.any_eq_false]
      exact fun a ha => Bool.eq_false_iff.mp
        ((List.pairwise_append.mp h).2.2 a ha x List.mem_cons_self)
    rw [List.append_cons] at h
    rw [List.foldl_cons, entered, hnew, if_neg Bool.false_ne_true, ih h, List.append_cons ids x xs]

/-- Names that are there are not entered again. -/
theorem foldl_entered_old {xs : List Json} (h : ∀ x ∈ xs, ∃ a ∈ ids, Data.same a x = true) :
    xs.foldl entered ids = ids := by
  induction xs with
  | nil => rfl
  | cons x xs ih =>
    obtain ⟨hx, hxs⟩ := List.forall_mem_cons.mp h
    rw [List.foldl_cons, entered, if_pos (List.any_eq_true.mpr hx), ih hxs]

/-- Names among which all that is met is, and all that records and occurrences name is met. -/
structure Within (names met records : List Json) (pairs : List (Json × Json)) : Prop where
  comparable : Data.Comparable names
  known : ∀ x ∈ met, x ∈ names
  named : ∀ j ∈ records, nameOf j ∈ met
  ends : ∀ p ∈ pairs, p.1 ∈ met ∧ p.2 ∈ met

section Steps

variable {names met records : List Json} {pairs : List (Json × Json)} {g : Digraph}
  {u v j source target : Json} {n : GraphNode} {p : Json × Json}

theorem Within.times_congr (hin : Within names met records pairs) {u' v' : Json} (hu : u ∈ names)
    (hu' : u' ∈ names)
    (hv : v ∈ names) (hv' : v' ∈ names) (huu : Data.same u u' = true)
    (hvv : Data.same v v' = true) :
    times pairs u v = times pairs u' v' := by
  unfold times
  refine List.countP_congr fun p hp => ?_
  obtain ⟨h₁, h₂⟩ := hin.ends p hp
  rw [hin.comparable.congr_right hu hu' (hin.known _ h₁) huu, hin.comparable.congr_right hv hv'
    (hin.known _ h₂) hvv]

/-- A name that is met for the first time becomes a node that carries nothing. -/
theorem Counts.bring (h : Counts met records pairs g) (hin : Within names met records pairs)
    {x : Json} (hx : x ∈ names) :
    ∃ g', g.withNode x = .ok g' ∧ Counts (met ++ [x]) records pairs g' ∧
      g'.nodes.map (·.id) = entered (g.nodes.map (·.id)) x := by
  have hany : ((g.nodes.map (·.id)).any fun a => Data.same a x) = g.hasNode x := by
    rw [List.any_map, Digraph.hasNode, Digraph.find?, List.isSome_find?]
    rfl
  refine ⟨_, Digraph.withNode_of_node (hin.comparable.node x hx), ?_⟩
  rw [entered, hany]
  by_cases hnode : g.hasNode x = true
  · rw [if_pos hnode, if_pos hnode]
    refine ⟨⟨fun n hn => List.mem_append_left _ (h.named n hn), ?_, h.distinct, h.carries, h.edges⟩,
      rfl⟩
    exact List.forall_mem_append.mpr ⟨h.present, List.forall_mem_singleton.mpr
      (Digraph.hasNode_eq_true.mp hnode)⟩
  · rw [if_neg hnode, if_neg hnode]
    refine ⟨?_, List.map_append⟩
    have hnew : ∀ n ∈ g.nodes, Data.same n.id x = false := by
      intro n hn
      rw [Bool.eq_false_iff]
      exact fun hsame => hnode (Digraph.hasNode_eq_true.mpr ⟨n, hn, hsame⟩)
    -- Nothing that is met equals the new name.
    have hother : ∀ y ∈ met, Data.same y x = false := by
      intro y hy
      obtain ⟨n, hn, hsame⟩ := h.present y hy
      rw [← hin.comparable.congr_left (hin.known _ (h.named n hn)) (hin.known y hy) hx hsame]
      exact hnew n hn
    -- The new node is the last one.
    have hall {P : GraphNode → Prop} (hold : ∀ n ∈ g.nodes, P n) (hlast : P ⟨x, [], []⟩) :
        ∀ n ∈ g.nodes ++ [⟨x, [], []⟩], P n :=
        List.forall_mem_append.mpr ⟨hold, List.forall_mem_singleton.mpr hlast⟩
    refine ⟨hall (fun n hn => List.mem_append_left _ (h.named n hn)) (by simp), fun y hy => ?_, ?_,
      hall h.carries ?_, hall h.edges ⟨.nil, List.forall_mem_nil _, fun p hp hsame => ?_⟩⟩
    · rcases List.mem_append.mp hy with hy | hy
      · obtain ⟨n, hn, hsame⟩ := h.present y hy
        exact ⟨n, List.mem_append_left _ hn, hsame⟩
      · rw [List.mem_singleton.mp hy]
        exact ⟨⟨x, [], []⟩, by simp, hin.comparable.refl x hx⟩
    · rw [List.map_append, List.pairwise_append]
      exact ⟨h.distinct, List.pairwise_singleton _ _, by simpa using hnew⟩
    · rw [carriedBy, lastNamed_eq_none.mpr fun j hj => hother _ (hin.named j hj)]
      rfl
    · rw [hother _ (hin.ends p hp).1] at hsame
      cases hsame

/-- A change of a node that keeps its name. -/
theorem Counts.changeNode {records' : List Json} {pairs' : List (Json × Json)}
    (h : Counts met records pairs g) (id : Json)
    {f : GraphNode → GraphNode} (hf : ∀ n, (f n).id = n.id)
    (hself : ∀ n ∈ g.nodes, Data.same n.id id = true → (f n).attributes = carriedBy records' n.id ∧
      CountsEdges pairs' (f n))
    (hother : ∀ n ∈ g.nodes, Data.same n.id id = false → n.attributes = carriedBy records' n.id ∧
      CountsEdges pairs' n) :
    Counts met records' pairs' (g.changeNode id f) := by
  have hid := Digraph.id_changed hf id
  have hnode : ∀ n ∈ (g.changeNode id f).nodes,
      n.id ∈ met ∧ n.attributes = carriedBy records' n.id ∧ CountsEdges pairs' n := by
    intro n hn
    obtain ⟨n₀, hn₀, rfl⟩ := Digraph.mem_changeNode hn
    rw [hid]
    refine ⟨h.named n₀ hn₀, ?_⟩
    split
    · next hsame => exact hself n₀ hn₀ hsame
    · next hsame => exact hother n₀ hn₀ (Bool.eq_false_iff.mpr hsame)
  refine ⟨fun n hn => (hnode n hn).1, fun x hx => ?_, ?_, fun n hn => (hnode n hn).2.1, fun n hn =>
    (hnode n hn).2.2⟩
  · obtain ⟨n, hn, hsame⟩ := h.present x hx
    refine ⟨_, List.mem_map.mpr ⟨n, hn, rfl⟩, ?_⟩
    rw [hid]
    exact hsame
  · rw [Digraph.map_id_changeNode _ _ hf]
    exact h.distinct

/-- A record is put on the node of its name. -/
theorem Counts.describe (h : Counts met records pairs g) (hin : Within names met records pairs)
    (hj : nameOf j ∈ names) :
    Counts met (records ++ [j]) pairs
      (g.changeNode (nameOf j) fun n =>
        { n with attributes := Digraph.putAll n.attributes (fieldsOf j) }) := by
  have hcomm {n : GraphNode} (hn : n ∈ g.nodes) :=
    hin.comparable.same_comm (hin.known _ (h.named n hn)) hj
  refine h.changeNode _ (fun n => rfl) (fun n hn hsame => ⟨?_, ?_⟩) fun n hn hsame =>
    ⟨?_, h.edges n hn⟩
  · rw [carriedBy, lastNamed_concat, ← hcomm hn, if_pos hsame]
    show Digraph.putAll n.attributes (fieldsOf j) = fieldsOf j
    rw [h.carries n hn, carriedBy]
    cases lastNamed records n.id with
    | none => exact putAll_nil_fieldsOf j
    | some i => exact putAll_fieldsOf i j
  · have hedges := h.edges n hn
    exact ⟨hedges.distinct, hedges.weight, hedges.present⟩
  · rw [carriedBy, lastNamed_concat, ← hcomm hn, hsame]
    exact h.carries n hn

/-- The edge that occurs once more weighs one more, by whatever equal names it goes. -/
theorem Within.times_more (hin : Within names met records pairs) (hs : source ∈ names)
    (ht : target ∈ names)
    (hu : u ∈ names) (hv : v ∈ names) (hus : Data.same u source = true)
    (hvt : Data.same v target = true) :
    times (pairs ++ [(source, target)]) u v = times pairs source target + 1 := by
  rw [times_concat, hin.comparable.symm _ hu _ hs hus, hin.comparable.symm _ hv _ ht hvt,
    hin.times_congr hu hs hv ht hus hvt]
  rfl

theorem CountsEdges.end_mem (h : CountsEdges pairs n) (hin : Within names met records pairs)
    {e : Json × Attributes} (he : e ∈ n.edges) : e.1 ∈ names := by
  obtain ⟨p, hp, heq⟩ := List.mem_map.mp (h.weight e he).1
  rw [← heq]
  exact hin.known _ (hin.ends p hp).2

/-- An edge that does not occur keeps its weight. -/
theorem CountsEdges.weight_concat (h : CountsEdges pairs n) {e : Json × Attributes}
    (he : e ∈ n.edges) (hother : (Data.same p.1 n.id && Data.same p.2 e.1) = false) :
    e.1 ∈ (pairs ++ [p]).map (·.2) ∧ 0 < times (pairs ++ [p]) n.id e.1 ∧
      e.2 = [("weight", .int (times (pairs ++ [p]) n.id e.1))] := by
  obtain ⟨hmem, hpos, hweight⟩ := h.weight e he
  rw [times_concat, hother, List.map_append]
  exact ⟨List.mem_append_left _ hmem, hpos, hweight⟩

/-- The edges of another node stay as they are. -/
theorem CountsEdges.pass (h : CountsEdges pairs n) (hother : Data.same p.1 n.id = false) :
    CountsEdges (pairs ++ [p]) n := by
  refine ⟨h.distinct, fun e he => h.weight_concat he (by rw [hother, Bool.false_and]), ?_⟩
  exact List.forall_mem_append.mpr ⟨h.present, by simp [hother]⟩

section Put

variable {n : GraphNode} {source target : Json}
  (h : CountsEdges pairs n) (hin : Within names met records pairs) (hn : n.id ∈ names)
  (hs : source ∈ names)
  (ht : target ∈ names) (hsame : Data.same n.id source = true)
include h hin hn hs ht hsame

/-- The first occurrence of a dependency makes a new edge. -/
theorem CountsEdges.put_new (hnew : ∀ e ∈ n.edges, Data.same e.1 target = false) :
    CountsEdges (pairs ++ [(source, target)])
      { n with edges := n.edges ++
        [(target, [("weight", .int (times pairs source target + 1 : Nat))])] } := by
  have hself := hin.comparable.refl target ht
  refine ⟨?_, List.forall_mem_append.mpr ⟨fun e he => h.weight_concat he ?_,
    List.forall_mem_singleton.mpr ?_⟩, List.forall_mem_append.mpr ⟨fun p hp hpn => ?_,
    by simp [hself]⟩⟩
  · rw [List.map_append, List.pairwise_append]
    exact ⟨h.distinct, List.pairwise_singleton _ _, by simpa using hnew⟩
  · rw [hin.comparable.same_comm ht (h.end_mem hin he), hnew e he, Bool.and_false]
  · rw [hin.times_more hs ht hn ht hsame hself]
    exact ⟨by simp, Nat.succ_pos _, rfl⟩
  · obtain ⟨e, he, hep⟩ := h.present p hp hpn
    exact ⟨e, List.mem_append_left _ he, hep⟩

/-- A further occurrence adds to the weight of the edge that is there. -/
theorem CountsEdges.put_old {before after : List (Json × Attributes)} {e : Json × Attributes}
    (hsplit : n.edges = before ++ e :: after) (he : Data.same e.1 target = true) :
    CountsEdges (pairs ++ [(source, target)])
      { n with edges := before ++ (e.1, [("weight", .int (times pairs source target + 1 : Nat))]) ::
        after } := by
  have hmem : e ∈ n.edges := by simp [hsplit]
  have hdistinct : (before.map (·.1) ++ e.1 :: after.map (·.1)).Pairwise fun a b =>
      Data.same a b = false := by
    rw [← List.map_cons, ← List.map_append, ← hsplit]
    exact h.distinct
  obtain ⟨-, hrest, hbefore⟩ := List.pairwise_append.mp hdistinct
  have hafter := (List.pairwise_cons.mp hrest).1
  -- The other edges go to other nodes.
  have hother {d : Json × Attributes} (hd : d ∈ before ∨ d ∈ after) : d ∈ n.edges ∧
      Data.same target d.1 = false := by
    have hdmem : d ∈ n.edges := by
      rw [hsplit]
      exact List.mem_append.mpr (hd.imp_right (List.mem_cons_of_mem _))
    refine ⟨hdmem, ?_⟩
    rw [← hin.comparable.congr_left (h.end_mem hin hmem) ht (h.end_mem hin hdmem) he]
    rcases hd with hd | hd
    · rw [hin.comparable.same_comm (h.end_mem hin hmem) (h.end_mem hin hdmem)]
      exact hbefore _ (List.mem_map.mpr ⟨d, hd, rfl⟩) _ List.mem_cons_self
    · exact hafter _ (List.mem_map.mpr ⟨d, hd, rfl⟩)
  have hkeep {d : Json × Attributes} (hd : d ∈ before ∨ d ∈ after) :=
    h.weight_concat (p := (source, target)) (hother hd).1 (by rw [(hother hd).2, Bool.and_false])
  refine ⟨?_, fun d hd => ?_, fun p hp hpn => ?_⟩
  · rw [List.map_append, List.map_cons]
    exact hdistinct
  · rcases List.mem_append.mp hd with hd | hd
    · exact hkeep (.inl hd)
    · rcases List.mem_cons.mp hd with rfl | hd
      · rw [hin.times_more hs ht hn (h.end_mem hin hmem) hsame he, List.map_append]
        exact ⟨List.mem_append_left _ (h.weight e hmem).1, Nat.succ_pos _, rfl⟩
      · exact hkeep (.inr hd)
  · -- The edge that is put has the end of the one whose place it takes.
    obtain ⟨d, hd, hdp⟩ : ∃ d ∈ n.edges, Data.same d.1 p.2 = true := by
      rcases List.mem_append.mp hp with hp | hp
      · exact h.present p hp hpn
      · rw [List.mem_singleton.mp hp]
        exact ⟨e, hmem, he⟩
    rw [hsplit] at hd
    rcases List.mem_append.mp hd with hd | hd
    · exact ⟨d, List.mem_append_left _ hd, hdp⟩
    · rcases List.mem_cons.mp hd with rfl | hd
      · exact ⟨_, List.mem_append_right _ List.mem_cons_self, hdp⟩
      · exact ⟨d, List.mem_append_right _ (List.mem_cons_of_mem _ hd), hdp⟩

/-- One more occurrence is counted on an edge of the node it belongs to. -/
theorem CountsEdges.put :
    CountsEdges (pairs ++ [(source, target)])
      { n with
        edges := Digraph.putEdgeInto target "weight" (.int (times pairs source target + 1 : Nat))
          n.edges } := by
  rcases Digraph.putEdgeInto_cases target "weight"
      (.int (times pairs source target + 1 : Nat)) n.edges with
    ⟨hnew, hput⟩ | ⟨before, e, after, hsplit, he, hput⟩
  · rw [hput]
    exact h.put_new hin hn hs ht hsame hnew
  · have hweight := (h.weight e (by simp [hsplit])).2.2
    rw [hput, hweight]
    exact h.put_old hin hn hs ht hsame hsplit he

end Put

section

variable (h : Counts met records pairs g) (hin : Within names met records pairs)
include h hin

/-- An occurrence is counted on the node it belongs to. -/
theorem Counts.join (hs : source ∈ names) (ht : target ∈ names) :
    Counts met records (pairs ++ [(source, target)]) (g.changeNode source fun n =>
      { n with
        edges := Digraph.putEdgeInto target "weight" (.int (times pairs source target + 1 : Nat))
          n.edges }) := by
  have hknown {n : GraphNode} (hn : n ∈ g.nodes) : n.id ∈ names := hin.known _ (h.named n hn)
  refine h.changeNode _ (fun n => rfl) (fun n hn hsame =>
    ⟨h.carries n hn, (h.edges n hn).put hin (hknown hn) hs ht hsame⟩)
    fun n hn hsame => ⟨h.carries n hn, (h.edges n hn).pass ?_⟩
  rw [hin.comparable.same_comm hs (hknown hn)]
  exact hsame

/-- What an edge weighs: the number of its occurrences; without one there is no edge. -/
theorem Counts.edge?_eq (hu : u ∈ names) (hv : v ∈ names) :
    g.edge? u v = if times pairs u v = 0 then none
      else some [("weight", .int (times pairs u v))] := by
  have hcomparable := hin.comparable
  cases hfind : g.find? u with
  | none =>
    have hnone : times pairs u v = 0 := by
      by_contra hpos
      obtain ⟨p, hp, hpu, -⟩ := times_pos_iff.mp (Nat.pos_of_ne_zero hpos)
      have hpmet := (hin.ends p hp).1
      obtain ⟨n, hn, hnp⟩ := h.present _ hpmet
      exact List.find?_eq_none.mp hfind n hn
        (hcomparable.trans _ (hin.known _ (h.named n hn)) _ (hin.known _ hpmet) _ hu hnp hpu)
    rw [if_pos hnone, Digraph.edge?, hfind]
    rfl
  | some n =>
    have hn := List.mem_of_find?_eq_some hfind
    have hnu : Data.same n.id u = true :=
      List.find?_some (p := fun m : GraphNode => Data.same m.id u) hfind
    have hnames := hin.known _ (h.named n hn)
    have hedges := h.edges n hn
    have hedge : g.edge? u v = (n.edges.find? fun e => Data.same e.1 v).map (·.2) := by
      rw [Digraph.edge?, hfind, Option.map_eq_bind]
      rfl
    rw [hedge]
    cases hfind' : n.edges.find? fun e => Data.same e.1 v with
    | none =>
      have hnone : times pairs u v = 0 := by
        by_contra hpos
        obtain ⟨p, hp, hpu, hpv⟩ := times_pos_iff.mp (Nat.pos_of_ne_zero hpos)
        obtain ⟨hp₁, hp₂⟩ := hin.ends p hp
        rw [← hcomparable.congr_right hnames hu (hin.known _ hp₁) hnu] at hpu
        obtain ⟨e, he, hep⟩ := hedges.present p hp hpu
        exact List.find?_eq_none.mp hfind' e he
          (hcomparable.trans _ (hedges.end_mem hin he) _ (hin.known _ hp₂) _ hv hep hpv)
      rw [if_pos hnone]
      rfl
    | some e =>
      have he := List.mem_of_find?_eq_some hfind'
      have hev : Data.same e.1 v = true :=
        List.find?_some (p := fun e : Json × Attributes => Data.same e.1 v) hfind'
      obtain ⟨-, hpos, hweight⟩ := hedges.weight e he
      have htimes := hin.times_congr hnames hu (hedges.end_mem hin he) hv hnu hev
      rw [htimes] at hpos hweight
      rw [if_neg (Nat.ne_of_gt hpos), Option.map_some, hweight]

/-- The weight to put next is one more than the number of occurrences. -/
theorem Counts.nextWeight_eq (hu : u ∈ names) (hv : v ∈ names) :
    nextWeight g u v = .ok (.int (times pairs u v + 1 : Nat)) := by
  have hfind : g.findEdge u v = .ok (g.edge? u v) := by
    unfold Digraph.findEdge Data.key
    rw [if_pos (hin.comparable.node u hu).1, if_pos (hin.comparable.node v hv).1]
    show (if !g.hasNode u then _ else _) = _
    cases hnode : g.find? u with
    | none => simp [Digraph.hasNode, hnode, Digraph.edge?, pure, Except.pure]
    | some n => simp [Digraph.hasNode, hnode, pure, Except.pure, bind, Except.bind]
  unfold nextWeight
  rw [hfind, h.edge?_eq hin hu hv]
  by_cases hzero : times pairs u v = 0
  · rw [if_pos hzero, hzero]
    rfl
  · rw [if_neg hzero]
    rfl

end

/-! ## Both loops -/

section

variable (hin : Within names met records pairs)
include hin

theorem Within.bring {x : Json} (hx : x ∈ names) : Within names (met ++ [x]) records pairs := by
  refine ⟨hin.comparable, ?_, fun j hj => List.mem_append_left _ (hin.named j hj), fun p hp => ?_⟩
  · exact List.forall_mem_append.mpr ⟨hin.known, List.forall_mem_singleton.mpr hx⟩
  · exact (hin.ends p hp).imp (List.mem_append_left _) (List.mem_append_left _)

theorem Within.describe (hj : nameOf j ∈ met) :
    Within names met (records ++ [j]) pairs :=
  { hin with named := List.forall_mem_append.mpr ⟨hin.named, List.forall_mem_singleton.mpr hj⟩ }

theorem Within.join (hp : p.1 ∈ met ∧ p.2 ∈ met) :
    Within names met records (pairs ++ [p]) :=
  { hin with ends := List.forall_mem_append.mpr ⟨hin.ends, List.forall_mem_singleton.mpr hp⟩ }

end

theorem member_fieldsOf (j : Json) :
    Data.member (.obj (fieldsOf j)) "full_name" = .ok (nameOf j) ∧
      Data.member (.obj (fieldsOf j)) "dependency" = .ok (j.getD "dependency" .null) := by
  constructor <;> rfl

variable (h : Counts met records pairs g) (hin : Within names met records pairs)
include h hin

theorem Counts.addSymbol (hj : nameOf j ∈ names) :
    ∃ g', (addSymbol (.obj (fieldsOf j))).run.run g = (.ok (), g') ∧
      Counts (met ++ [nameOf j]) (records ++ [j]) pairs g' ∧
      g'.nodes.map (·.id) = entered (g.nodes.map (·.id)) (nameOf j) := by
  obtain ⟨g₁, hg₁, h₁, hids⟩ := h.bring hin hj
  refine ⟨_, ?_, h₁.describe (hin.bring hj) hj,
    by rw [Digraph.map_id_changeNode, hids]; exact fun _ => rfl⟩
  have hput : g.putNode (nameOf j) (fieldsOf j) =
      .ok (g₁.changeNode (nameOf j) fun n =>
        { n with attributes := Digraph.putAll n.attributes (fieldsOf j) }) := by
    rw [Digraph.putNode, hg₁]
    rfl
  have hplain : ((fieldsOf j).any fun m => reservedNames.contains m.1) = false := by
    simp [fieldsOf, keptMembers, reservedNames]
  unfold Dependencies.addSymbol
  rw [run_bind, run_liftExcept, (member_fieldsOf j).1]
  simp only [hplain, Bool.false_eq_true, if_false, run_bind, run_get, run_liftExcept, hput, run_set]

theorem Counts.addSymbols {js : List Json} (hjs : ∀ j ∈ js, nameOf j ∈ names) :
    ∃ g', ((js.map fun j => .obj (fieldsOf j)).forM Dependencies.addSymbol).run.run g =
      (.ok (), g') ∧
      Counts (met ++ js.map nameOf) (records ++ js) pairs g' ∧
      Within names (met ++ js.map nameOf) (records ++ js) pairs ∧
      g'.nodes.map (·.id) = (js.map nameOf).foldl entered (g.nodes.map (·.id)) := by
  induction js generalizing met records g with
  | nil => exact ⟨g, rfl, by simpa using h, by simpa using hin, rfl⟩
  | cons j js ih =>
    obtain ⟨hj, hjs⟩ := List.forall_mem_cons.mp hjs
    obtain ⟨g₁, hg₁, h₁, hids⟩ := h.addSymbol hin hj
    have hin₁ := (hin.bring hj).describe (List.mem_append_right met (List.mem_singleton.mpr rfl))
    obtain ⟨g', hg', h'⟩ := ih h₁ hin₁ hjs
    refine ⟨g', forM_cons_eq_ok.mpr ⟨g₁, hg₁, hg'⟩, ?_⟩
    rwa [List.map_cons, List.append_cons, List.append_cons records, List.foldl_cons, ← hids]

theorem Counts.addDependency (hs : source ∈ met) (ht : target ∈ names) :
    ∃ g', (addDependency source target).run.run g = (.ok (), g') ∧
      Counts (met ++ [target]) records (pairs ++ [(source, target)]) g' ∧
      g'.nodes.map (·.id) = entered (g.nodes.map (·.id)) target := by
  have hsnames := hin.known _ hs
  obtain ⟨g₁, hg₁, h₁, hids⟩ := h.bring hin ht
  refine ⟨_, ?_, h₁.join (hin.bring ht) hsnames ht,
    by rw [Digraph.map_id_changeNode, hids]; exact fun _ => rfl⟩
  have hsource : g.withNode source = .ok g := by
    rw [Digraph.withNode_of_node (hin.comparable.node
      _ hsnames), if_pos (Digraph.hasNode_eq_true.mpr (h.present _ hs))]
  have hput : g.putEdge source target "weight" (.int (times pairs source target + 1 : Nat)) =
      .ok (g₁.changeNode source fun n =>
        { n with
          edges := Digraph.putEdgeInto target "weight" (.int (times pairs source target + 1 : Nat))
            n.edges }) := by
    rw [Digraph.putEdge, hsource]
    show (g.withNode target >>= _) = _
    rw [hg₁]
    rfl
  unfold Dependencies.addDependency
  simp only [run_bind, run_get, run_liftExcept, h.nextWeight_eq hin hsnames ht, hsource,
    run_set, hput]

theorem Counts.addTargets {targets : List Json} (hs : source ∈ met)
    (htargets : ∀ t ∈ targets, t ∈ names) :
    ∃ g', (targets.forM (Dependencies.addDependency source)).run.run g = (.ok (), g') ∧
      Counts (met ++ targets) records (pairs ++ targets.map (source, ·)) g' ∧
      Within names (met ++ targets) records (pairs ++ targets.map (source, ·)) ∧
      g'.nodes.map (·.id) = targets.foldl entered (g.nodes.map (·.id)) := by
  induction targets generalizing met pairs g with
  | nil => exact ⟨g, rfl, by simpa using h, by simpa using hin, rfl⟩
  | cons t targets ih =>
    obtain ⟨ht, htargets⟩ := List.forall_mem_cons.mp htargets
    obtain ⟨g₁, hg₁, h₁, hids⟩ := h.addDependency hin hs ht
    have hs₁ := List.mem_append_left [t] hs
    have hin₁ := (hin.bring ht).join (p := (source, t)) ⟨hs₁,
      List.mem_append_right met (List.mem_singleton.mpr rfl)⟩
    obtain ⟨g', hg', h'⟩ := ih h₁ hin₁ hs₁ htargets
    refine ⟨g', forM_cons_eq_ok.mpr ⟨g₁, hg₁, hg'⟩, ?_⟩
    rwa [List.map_cons, List.append_cons, List.append_cons pairs, List.foldl_cons, ← hids]

theorem Counts.addDependencies {js : List Json}
    (hnames : ∀ j ∈ js, nameOf j ∈ met ∧ ∀ t ∈ targetsOf j, t ∈ names)
    (hlists : ∀ j ∈ js, ∃ xs, Data.items (j.getD "dependency" .null) = .ok xs) :
    ∃ g', ((js.map fun j => .obj (fieldsOf j)).forM Dependencies.addDependencies).run.run g =
      (.ok (), g') ∧
      Counts (met ++ js.flatMap targetsOf) records (pairs ++ occurrences js) g' ∧
      g'.nodes.map (·.id) = (js.flatMap targetsOf).foldl entered (g.nodes.map (·.id)) := by
  induction js generalizing met pairs g with
  | nil => exact ⟨g, rfl, by simpa [occurrences] using h, rfl⟩
  | cons j js ih =>
    obtain ⟨⟨hj, htargets⟩, hnames⟩ := List.forall_mem_cons.mp hnames
    obtain ⟨⟨xs, hxs⟩, hlists⟩ := List.forall_mem_cons.mp hlists
    have hitems : targetsOf j = xs := by
      rw [targetsOf, hxs]
      rfl
    obtain ⟨g₁, hg₁, h₁, hin₁, hids⟩ := h.addTargets hin hj htargets
    obtain ⟨g', hg', h'⟩ :=
      ih h₁ hin₁ (fun i hi => (hnames i hi).imp_left (List.mem_append_left _)) hlists
    refine ⟨g', forM_cons_eq_ok.mpr ⟨g₁, ?_, hg'⟩, ?_⟩
    · have hmember : (Data.member (.obj (fieldsOf j)) "dependency" >>= fun v => Data.items v) =
          .ok (targetsOf j) := by
        rw [(member_fieldsOf j).2, hitems]
        exact hxs
      unfold Dependencies.addDependencies
      simp only [run_bind, run_liftExcept, hmember, (member_fieldsOf j).1]
      exact hg₁
    · rwa [List.flatMap_cons, occurrences, List.flatMap_cons, ← List.append_assoc,
        ← List.append_assoc, List.foldl_append, ← hids]

end Steps

/-- **The graph of records counts their dependencies**, and its nodes come in the order in which
names are met. -/
theorem addAll_counts (hnames : Data.Comparable (namesIn js))
    (hlists : ∀ j ∈ js, ∃ xs, Data.items (j.getD "dependency" .null) = .ok xs) :
    ∃ g, (addAll (.arr (js.map fun j => .obj (fieldsOf j)))).run.run .empty = (.ok (), g) ∧
      Counts (namesIn js) js (occurrences js) g ∧
      g.nodes.map (·.id) = (namesIn js).foldl entered [] := by
  have hname : ∀ j ∈ js, nameOf j ∈ namesIn js :=
    fun j hj => List.mem_append_left _ (List.mem_map.mpr ⟨j, hj, rfl⟩)
  have htarget : ∀ j ∈ js, ∀ t ∈ targetsOf j, t ∈ namesIn js :=
    fun j hj t ht => List.mem_append_right _ (List.mem_flatMap.mpr ⟨j, hj, ht⟩)
  have hin : Within (namesIn js) [] [] [] := ⟨hnames, nofun, nofun, nofun⟩
  obtain ⟨g₁, hg₁, h₁, hin₁, hids₁⟩ := counts_empty.addSymbols hin hname
  obtain ⟨g, hg, h, hids⟩ :=
    h₁.addDependencies hin₁ (fun j hj => ⟨List.mem_map.mpr ⟨j, hj, rfl⟩, htarget j hj⟩) hlists
  refine ⟨g, ?_, h, by rw [hids, hids₁, namesIn, List.foldl_append]; rfl⟩
  unfold addAll Data.items
  simp only [run_bind, run_liftExcept, hg₁]
  exact hg

/-! ## The page -/

/-- Some dependency is the name of no record. -/
def Unknown (js : List Json) : Prop := ∃ j ∈ js, ∃ t ∈ targetsOf j, ∀ i ∈ js,
    Data.same (nameOf i) t = false

/-- Where only one fault can come up, and it does, the whole is that fault. -/
theorem mapM_eq_error {fault : Data.Fault} (hf : ∀ x ∈ xs, (∃ y, f x = .ok y) ∨ f x = .error fault)
    (hx : ∃ x ∈ xs, f x = .error fault) : xs.mapM f = .error fault := by
  induction xs with
  | nil => exact absurd hx (by simp)
  | cons x xs ih =>
    obtain ⟨hfx, hf⟩ := List.forall_mem_cons.mp hf
    rw [List.mapM_cons]
    rcases hfx with ⟨y, hy⟩ | hfx
    · have hrest : ∃ x ∈ xs, f x = .error fault := by
        obtain ⟨z, hz, hfz⟩ := hx
        rcases List.mem_cons.mp hz with rfl | hz
        · rw [hy] at hfz
          cases hfz
        · exact ⟨z, hz, hfz⟩
      rw [hy, ih hf hrest]
      rfl
    · rw [hfx]
      rfl

/-- A node without a record is one that some record depends on. -/
theorem Counts.unknown_iff {g : Digraph} (hnames : Data.Comparable (namesIn js))
    (h : Counts (namesIn js) js (occurrences js) g) :
    Unknown js ↔ ∃ n ∈ g.nodes, lastNamed js n.id = none := by
  have hname : ∀ j ∈ js, nameOf j ∈ namesIn js :=
    fun j hj => List.mem_append_left _ (List.mem_map.mpr ⟨j, hj, rfl⟩)
  constructor
  · rintro ⟨j, hj, t, ht, hnone⟩
    have htnames : t ∈ namesIn js := List.mem_append_right _ (List.mem_flatMap.mpr ⟨j, hj, ht⟩)
    obtain ⟨n, hn, hnt⟩ := h.present t htnames
    refine ⟨n, hn, lastNamed_eq_none.mpr fun i hi => ?_⟩
    rw [hnames.congr_right (h.named n hn) htnames (hname i hi) hnt]
    exact hnone i hi
  · rintro ⟨n, hn, hnone⟩
    have hother := lastNamed_eq_none.mp hnone
    rcases List.mem_append.mp (h.named n hn) with hmem | hmem
    · obtain ⟨j, hj, heq⟩ := List.mem_map.mp hmem
      have hself := hother j hj
      rw [← heq, hnames.refl _ (hname j hj)] at hself
      cases hself
    · obtain ⟨j, hj, ht⟩ := List.mem_flatMap.mp hmem
      exact ⟨j, hj, n.id, ht, hother⟩

/-- A double near a whole number there is, or it is out of range. -/
theorem nearest_cases (n : Int) : (∃ x, Data.nearest n = .ok x) ∨
    Data.nearest n = .error .outOfRange := by
  unfold Data.nearest
  split
  · exact .inr rfl
  · exact .inl ⟨_, rfl⟩

theorem quotient_cases (n : Int) (divisor : Nat) :
    (∃ x, Data.quotient n divisor = .ok x) ∨ Data.quotient n divisor = .error .outOfRange := by
  unfold Data.quotient
  dsimp only
  generalize ((if n.natAbs < Nat.pow 2 64 then 64 else 0) : Nat) = shift
  rcases nearest_cases (n.natAbs * Nat.pow 2 shift / divisor |||
    (if n.natAbs * Nat.pow 2 shift % divisor = 0 then 0 else 1) : Nat) with ⟨x, hx⟩ | hx
  · exact .inl ⟨_, by rw [hx]; rfl⟩
  · exact .inr (by rw [hx]; rfl)

/-- An edge with a weight is drawn, unless the weight is out of range. -/
theorem link_of_weight (he : e.2.2 = [("weight", .int w)]) :
    (∃ j, Chart.link e = .ok j) ∨ Chart.link e = .error .outOfRange := by
  unfold Chart.link Data.divideAndAdd
  rw [he]
  simp only [Data.member, List.find?_cons, beq_self_eq_true, Data.toNumber, Data.number?,
    Data.Number.dividedBy, bind, Except.bind, pure, Except.pure]
  rcases quotient_cases w 2 with ⟨x, hx⟩ | hx
  · exact .inl ⟨_, by rw [hx]⟩
  · exact .inr (by rw [hx])

theorem exists_link (he : e.2.2 = [("weight", .int w)]) (hw : w < Data.tooLarge) :
    ∃ j, Chart.link e = .ok j := by
  obtain ⟨x, hx⟩ : ∃ x, Data.divideAndAdd (.int w) 2 1 = .ok x :=
    Data.exists_divideAndAdd_iff.mpr ⟨rfl, fun _ => Nat.lt_of_le_of_lt (Nat.div_le_self _ _) hw⟩
  unfold Chart.link
  rw [he]
  simp only [Data.member, List.find?_cons, beq_self_eq_true, bind, Except.bind, hx]
  exact ⟨_, rfl⟩

section Page

variable {js : List Json} {d : Dependencies}

/-- A page needs a color for every node. -/
theorem page_of_colors (hsome : ∃ n ∈ d.graph.nodes, Data.member (.obj n.attributes) "color" =
    .error (.noMember "color"))
    (hall : ∀ n ∈ d.graph.nodes, (∃ c, Data.member (.obj n.attributes) "color" = .ok c) ∨
      Data.member (.obj n.attributes) "color" = .error (.noMember "color")) : d.page =
        .error (.noMember "color") := by
  have hfault : (d.graph.nodes.mapM fun n => (do
      return Chart.node n (.int 50) (← Data.member (.obj n.attributes) "color") :
        Data.Result Json)) =
        .error (.noMember "color") := by
    refine mapM_eq_error (fun n hn => ?_) ?_
    · rcases hall n hn with ⟨c, hc⟩ | hc
      · exact .inl ⟨_, by rw [hc]; rfl⟩
      · exact .inr (by rw [hc]; rfl)
    · obtain ⟨n, hn, hc⟩ := hsome
      exact ⟨n, hn, by rw [hc]; rfl⟩
  rw [page, hfault]
  rfl

/-- If all nodes have colors, the page is there as soon as the edges can be drawn. -/
theorem page_of_links (hcolors : ∀ n ∈ d.graph.nodes, ∃ c,
    Data.member (.obj n.attributes) "color" = .ok c) :
    (∀ links, d.graph.edges.mapM Chart.link = .ok links → ∃ text, d.page = .ok text) ∧
      ∀ fault, d.graph.edges.mapM Chart.link = .error fault → d.page = .error fault := by
  obtain ⟨nodes, hnodes⟩ : ∃ nodes, (d.graph.nodes.mapM fun n => (do
      return Chart.node n (.int 50) (← Data.member (.obj n.attributes) "color") : Data.Result
        Json)) = .ok nodes := by
    refine exists_mapM_iff.mpr fun n hn => ?_
    obtain ⟨c, hc⟩ := hcolors n hn
    exact ⟨_, by rw [hc]; rfl⟩
  rw [page, hnodes]
  refine ⟨fun links hlinks => ?_, fun fault hfault => ?_⟩
  · simp only [bind, Except.bind, hlinks]
    exact ⟨_, rfl⟩
  · simp only [bind, Except.bind, hfault]

/-- A node with a record has the color of the record, and one without has none. -/
theorem Counts.color_cases (h : Counts (namesIn js) js (occurrences js) d.graph) {n : GraphNode}
    (hn : n ∈ d.graph.nodes) :
    (lastNamed js n.id = none ∧ Data.member (.obj n.attributes) "color" =
      .error (.noMember "color")) ∨
      (lastNamed js n.id ≠ none ∧ ∃ c, Data.member (.obj n.attributes) "color" = .ok c) := by
  rw [h.carries n hn, carriedBy]
  cases lastNamed js n.id with
  | none => exact .inl ⟨rfl, rfl⟩
  | some j => exact .inr ⟨Option.some_ne_none j, _, rfl⟩

/-- No edge weighs more than there are occurrences. -/
theorem Counts.weight_le (h : Counts (namesIn js) js (occurrences js) d.graph)
    {e : Json × Json × Attributes}
    (he : e ∈ d.graph.edges) : ∃ w : Nat, e.2.2 = [("weight", .int w)] ∧
    w ≤ (occurrences js).length := by
  obtain ⟨n, hn, hmem⟩ := List.mem_flatMap.mp he
  obtain ⟨e', he', rfl⟩ := List.mem_map.mp hmem
  exact ⟨_, ((h.edges n hn).weight e' he').2.2, List.countP_le_length⟩

variable (hnames : Data.Comparable (namesIn js))
  (h : Counts (namesIn js) js (occurrences js) d.graph)
include hnames h

theorem page_of_unknown (hunknown : Unknown js) : d.page = .error (.noMember "color") := by
  obtain ⟨n, hn, hnone⟩ := (h.unknown_iff hnames).mp hunknown
  refine page_of_colors ⟨n, hn, ?_⟩ fun m hm => ?_
  · rcases h.color_cases hn with ⟨-, hc⟩ | ⟨hsome, -⟩
    · exact hc
    · exact absurd hnone hsome
  · exact (h.color_cases hm).symm.imp And.right And.right

/-- If every dependency has a record there is a page, but for weights that are larger than every
double. -/
theorem page_of_known (hknown : ¬Unknown js) :
    ((∃ text, d.page = .ok text) ∨ d.page = .error .outOfRange) ∧
      ((occurrences js).length < Data.tooLarge → ∃ text, d.page = .ok text) := by
  obtain ⟨hdrawn, hfailed⟩ := page_of_links (d := d) fun n hn => by
    rcases h.color_cases hn with ⟨hnone, -⟩ | ⟨-, hc⟩
    · exact absurd ((h.unknown_iff hnames).mpr ⟨n, hn, hnone⟩) hknown
    · exact hc
  have hlink : ∀ e ∈ d.graph.edges, (∃ j, Chart.link e = .ok j) ∨
      Chart.link e = .error .outOfRange := by
    intro e he
    obtain ⟨w, hw, -⟩ := h.weight_le he
    exact link_of_weight hw
  have hok (hall : ∀ e ∈ d.graph.edges, ∃ j, Chart.link e = .ok j) : ∃ text, d.page = .ok text := by
    obtain ⟨links, hlinks⟩ := exists_mapM_iff.mpr hall
    exact hdrawn links hlinks
  refine ⟨?_, fun hsmall => hok fun e he => ?_⟩
  · by_cases hrange : ∃ e ∈ d.graph.edges, Chart.link e = .error .outOfRange
    · exact .inr (hfailed _ (mapM_eq_error hlink hrange))
    · exact .inl (hok fun e he => (hlink e he).resolve_right fun hfault => hrange ⟨e, he, hfault⟩)
  · obtain ⟨w, hw, hle⟩ := h.weight_le he
    exact exists_link hw (Nat.lt_of_le_of_lt hle hsmall)

end Page

/-! ## The graph of what is loaded -/

/-- Loading keeps the members of each record that its node is to carry. -/
theorem load_eq {project : String} {loaded : Dependencies}
    (h : load { project } (.arr js) = .ok loaded) :
    loaded = { project, data := .arr (js.map fun j => .obj (fieldsOf j)) } := by
  obtain ⟨items, hitems, h⟩ := except_bind_eq_ok.mp h
  cases hitems
  obtain ⟨records, hrecords, h⟩ := except_bind_eq_ok.mp h
  cases h
  rw [eq_map_of_mapM (fun j r => record_eq) hrecords]

/-- **The graph counts dependencies exactly.** Let records be loaded whose names can be nodes and
are compared as values, and whose dependencies can be run through. Then their graph is made; its
nodes are the names of the records and of their dependencies, a name with a record carries the
members of the last one, and there is an edge from `u` to `v` just if `v` occurs as a dependency of
`u`, which weighs the number of occurrences. A page lacks a color just if some dependency has no
record. -/
theorem build_counts_dependencies {project : String} {js : List Json} {loaded : Dependencies}
    (hload : load { project } (.arr js) = .ok loaded) (hnames : Data.Comparable (namesIn js))
    (hlists : ∀ j ∈ js, ∃ xs, Data.items (j.getD "dependency" .null) = .ok xs) :
    ∃ g, loaded.build = (.ok (), { loaded with graph := g }) ∧
      Counts (namesIn js) js (occurrences js) g ∧
      (∀ u ∈ namesIn js, ∀ v ∈ namesIn js, g.edge? u v =
        if times (occurrences js) u v = 0 then none
          else some [("weight", .int (times (occurrences js) u v))]) ∧
      (({ loaded with graph := g }).page = .error (.noMember "color") ↔ Unknown js) ∧
      (¬Unknown js → (∃ text, ({ loaded with graph := g }).page = .ok text) ∨
        Data.tooLarge ≤ (occurrences js).length ∧
        ({ loaded with graph := g }).page = .error .outOfRange) := by
  obtain rfl := load_eq hload
  obtain ⟨g, hg, h, -⟩ := addAll_counts hnames hlists
  have hin : Within (namesIn js) (namesIn js) js (occurrences js) := by
    refine ⟨hnames, fun x hx => hx, fun j hj =>
      List.mem_append_left _ (List.mem_map.mpr ⟨j, hj, rfl⟩), fun p hp => ?_⟩
    obtain ⟨j, hj, hp⟩ := List.mem_flatMap.mp hp
    obtain ⟨t, ht, rfl⟩ := List.mem_map.mp hp
    exact ⟨List.mem_append_left _ (List.mem_map.mpr ⟨j, hj, rfl⟩),
      List.mem_append_right _ (List.mem_flatMap.mpr ⟨j, hj, ht⟩)⟩
  let drawn : Dependencies :=
    { project, data := .arr (js.map fun j => .obj (fieldsOf j)), graph := g }
  have hknown := page_of_known (d := drawn) hnames h
  refine ⟨g, ?_, h, fun u hu v hv => h.edge?_eq hin hu hv,
    ⟨fun hpage => ?_, page_of_unknown hnames h⟩, fun hall => ?_⟩
  · rw [build, hg]
  · by_contra hall
    rcases (hknown hall).1 with ⟨text, hok⟩ | hrange
    · rw [hpage] at hok
      cases hok
    · rw [hpage] at hrange
      cases hrange
  · obtain ⟨hcases, hsmall⟩ := hknown hall
    by_cases hlarge : Data.tooLarge ≤ (occurrences js).length
    · exact hcases.imp_right (And.intro hlarge)
    · exact .inl (hsmall (Nat.not_le.mp hlarge))

/-- A record of a symbol on one line. -/
def lineRecord (kind : String) (name : Json) (dependencies : List Json) : Json :=
  .obj [("sym_type", .str kind), ("short_name", name), ("full_name", name),
    ("start_lineno", .int 1), ("stop_lineno", .int 1), ("dependency", .arr dependencies)]

/-- Two records for one name, which depend on it as well, on another and on one that has no record;
and a number. -/
def mixedRecords : List Json :=
  [lineRecord "Class" (.str "A") [.str "B", .str "A", .str "B", .str "X"],
    lineRecord "Method" (.str "B") [.int 1, .bool true],
    lineRecord "Interface" (.str "A") [.str "B"]]

theorem mixedRecords_counted :
    ∃ loaded g, load { project := "p" } (.arr mixedRecords) = .ok loaded ∧
      loaded.build = (.ok (), { loaded with graph := g }) ∧
      g.edge? (.str "A") (.str "B") = some [("weight", .int 3)] ∧
      g.edge? (.str "B") (.bool true) = some [("weight", .int 2)] ∧
      g.edge? (.str "B") (.str "A") = none ∧ ({ loaded with graph := g }).page =
        .error (.noMember "color") := by
  have hnames : namesIn mixedRecords = [.str "A", .str "B", .str "A", .str "B", .str "A", .str "B",
      .str "X", .int 1, .bool true, .str "B"] := rfl
  obtain ⟨g, hbuild, -, hedges, hpage, -⟩ := build_counts_dependencies
    (show load { project := "p" } (.arr mixedRecords) = .ok _ from rfl)
      (.of_exact (by simp [hnames]))
    (by simp [mixedRecords, lineRecord, Json.getD, Json.get?, Data.items])
  have hA : .str "A" ∈ namesIn mixedRecords := by simp [hnames]
  have hB : .str "B" ∈ namesIn mixedRecords := by simp [hnames]
  have htrue : .bool true ∈ namesIn mixedRecords := by simp [hnames]
  have hX : Unknown mixedRecords := by
    refine ⟨_, List.mem_cons_self, .str "X", ?_, by decide⟩
    simp [lineRecord, targetsOf, Json.getD, Json.get?, Data.items, Except.toOption]
  exact ⟨_, g, rfl, hbuild, hedges _ hA _ hB, hedges _ hB _ htrue, hedges _ hB _ hA, hpage.mpr hX⟩

/-- A record without a name is loaded, and no graph is made of it. -/
theorem nameless_record_is_no_node :
    ∃ loaded, load { project := "p" } (.arr [lineRecord "Class" .null []]) = .ok loaded ∧
      loaded.build = (.error .noNode, loaded) :=
  ⟨_, rfl, rfl⟩

end Dependencies

end Coupling
