import Coupling.Proofs.DependencyCounts
import Coupling.Proofs.Interactions

/-!
# Dependencies stay within a project

What a symbol depends on is always a symbol of the project, and never a type of `java.lang` or a
primitive type. This holds after every run of a profiler, whatever its files are and wherever faults
end its calls (`dependencies_closed`): a name is added to what a symbol depends on only if it is a
symbol, symbols are never taken away, and those of a new collection depend on nothing. So the graph
of the symbols has no other nodes.
-/

namespace Coupling.Project

open Java (ParseTree)

/-! ## Closed tables of symbols -/

/-- Every symbol stands under its name, and what it depends on stands in the table and is not
predefined. -/
structure Closed (registry : Registry) (symbols : Table SymbolId) : Prop where
  keys : symbols.keys.Nodup
  entries : ∀ name id, symbols.get? name = some id → ∃ s, registry.get? id = some s ∧
    s.fullName = name ∧
    ∀ d ∈ s.dependency, symbols.contains d = true ∧ isPredefined d = false

/-- No reading leads out of a closed table. -/
theorem Analyze.stable_closed (c : Setting) :
    Analyze.Stable c fun a => Closed a.registry a.symbols where
  onDependency a id name h hpre hname := by
    refine ⟨h.keys, fun name' id' hid' => ?_⟩
    obtain ⟨s, hs, hfull, hdeps⟩ := h.entries name' id' hid'
    unfold Registry.addDependency
    rw [Registry.get?_change, hs]
    split
    · refine ⟨_, rfl, hfull, fun d hd => ?_⟩
      rcases List.mem_append.mp hd with hd | hd
      · exact hdeps d hd
      · rw [List.mem_singleton.mp hd]
        exact ⟨hname, hpre⟩
    · exact ⟨s, rfl, hfull, hdeps⟩
  onSuper a id name h := by
    refine ⟨h.keys, fun name' id' hid' => ?_⟩
    obtain ⟨s, hs, hfull, hdeps⟩ := h.entries name' id' hid'
    unfold Registry.addSuper
    rw [Registry.get?_change, hs]
    split
    · exact ⟨_, rfl, hfull, hdeps⟩
    · exact ⟨s, rfl, hfull, hdeps⟩
  onCount _ _ _ _ h _ := h
  onImport a i h hi _ _ := by
    refine ⟨Table.nodup_keys_put _ _ h.keys, fun name id hid => ?_⟩
    unfold Analyze.withSymbol at hid ⊢
    rw [Table.get?_put] at hid
    split at hid
    · next hname =>
      cases hid
      refine ⟨i, Registry.get?_add_self _ i, hname.symm, fun d hd => ?_⟩
      rw [hi.dependency] at hd
      cases hd
    · obtain ⟨s, hs, hfull, hdeps⟩ := h.entries name id hid
      refine ⟨s, ?_, hfull, fun d hd => ⟨?_, (hdeps d hd).2⟩⟩
      · rw [Registry.get?_add_of_lt i (Registry.lt_size_of_get? hs), hs]
      · rw [Table.contains_put, (hdeps d hd).1, Bool.or_true]

/-! ## Records of closed tables -/

/-- The record of a symbol as a graph takes it. -/
theorem record_of_get? {registry : Registry} {id : SymbolId} {s : Symbol}
    (hs : registry.get? id = some s) (depth : Nat) :
    (∃ r, Dependencies.record (registry.record (depth + 1) id) = .ok r) ∧
      Dependencies.nameOf (registry.record (depth + 1) id) = .str s.fullName ∧
      Data.items ((registry.record (depth + 1) id).getD "dependency" .null) =
        .ok ((registry.dependency id).map Json.str) := by
  rw [Registry.record, Registry.dependency_of_get? hs, hs]
  exact ⟨⟨_, rfl⟩, rfl, rfl⟩

section Records

variable {registry : Registry} {symbols : Table SymbolId} (h : Closed registry symbols)
include h

theorem Closed.get? {e : String × SymbolId} (he : e ∈ symbols.entries) :
    ∃ s, registry.get? e.2 = some s ∧ s.fullName = e.1 ∧ ∀ d ∈ registry.dependency e.2,
    d ∈ symbols.keys := by
  obtain ⟨s, hs, hname, hdeps⟩ := h.entries e.1 e.2 ((Table.mem_entries_iff h.keys).mp he)
  refine ⟨s, hs, hname, fun d hd => Table.contains_iff_mem_keys.mp (hdeps d ?_).1⟩
  rwa [Registry.dependency_of_get? hs] at hd

/-- The records of a closed table can be taken, and depend on names of the table. -/
theorem Closed.record (depth : Nat) {id : SymbolId} (hid : id ∈ symbols.values) :
    (∃ r, Dependencies.record (registry.record (depth + 1) id) = .ok r) ∧
      Data.items ((registry.record (depth + 1) id).getD "dependency" .null) =
        .ok ((registry.dependency id).map Json.str) ∧
      ∀ d ∈ registry.dependency id, d ∈ symbols.keys := by
  obtain ⟨e, he, rfl⟩ := List.mem_map.mp hid
  obtain ⟨s, hs, -, hdeps⟩ := h.get? he
  obtain ⟨hrecord, -, hitems⟩ := record_of_get? hs depth
  exact ⟨hrecord, hitems, hdeps⟩

theorem Closed.names (depth : Nat) :
    (symbols.values.map (registry.record (depth + 1))).map Dependencies.nameOf =
      symbols.keys.map Json.str := by
  unfold Table.values Table.keys
  rw [List.map_map, List.map_map, List.map_map]
  refine List.map_congr_left fun e he => ?_
  obtain ⟨s, hs, hname, -⟩ := h.get? he
  rw [Function.comp_apply, Function.comp_apply, (record_of_get? hs depth).2.1, hname]
  rfl

theorem Closed.targets (depth : Nat) :
    (symbols.values.map (registry.record (depth + 1))).flatMap Dependencies.targetsOf =
      (symbols.values.flatMap registry.dependency).map Json.str := by
  rw [List.map_flatMap, List.flatMap_map]
  refine List.flatMap_congr fun id hid => ?_
  rw [Dependencies.targetsOf, (h.record depth hid).2.1]
  rfl

theorem Closed.target_mem {x : Json}
    (hx : x ∈ (symbols.values.flatMap registry.dependency).map Json.str) :
    x ∈ symbols.keys.map Json.str := by
  obtain ⟨d, hd, rfl⟩ := List.mem_map.mp hx
  obtain ⟨id, hid, hd⟩ := List.mem_flatMap.mp hd
  exact List.mem_map.mpr ⟨d, (h.record 0 hid).2.2 d hd, rfl⟩

/-- The graph of a closed table has a node for each symbol and no other, and can be shown. -/
theorem Closed.build (project : String) :
    ∃ loaded drawn, Dependencies.load { project } (registry.records symbols) = .ok loaded ∧
      loaded.build = (.ok (), drawn) ∧ drawn.graph.nodes.map (·.id) = symbols.keys.map Json.str ∧
      ((symbols.values.flatMap registry.dependency).length < Data.tooLarge →
        ∃ text, drawn.page = .ok text) := by
  let js := symbols.values.map (registry.record (registry.size + 1))
  have hnames := h.names registry.size
  have htargets := h.targets registry.size
  have hcomparable : Data.Comparable (Dependencies.namesIn js) := by
    refine .of_exact fun a ha => .inl ?_
    rw [Dependencies.namesIn, hnames, htargets, ← List.map_append] at ha
    obtain ⟨name, -, rfl⟩ := List.mem_map.mp ha
    exact ⟨name, rfl⟩
  have hrecords : ∀ j ∈ js, (∃ r, Dependencies.record j = .ok r) ∧
      ∃ xs, Data.items (j.getD "dependency" .null) = .ok xs := by
    intro j hj
    obtain ⟨id, hid, rfl⟩ := List.mem_map.mp hj
    exact (h.record registry.size hid).imp_right fun hitems => ⟨_, hitems.1⟩
  obtain ⟨loaded, hload⟩ : ∃ loaded, Dependencies.load { project } (.arr js) = .ok loaded := by
    obtain ⟨rs, hrs⟩ := Steps.exists_mapM_iff.mpr fun j hj => (hrecords j hj).1
    unfold Dependencies.load
    simp only [Data.items, bind, Except.bind, hrs]
    exact ⟨_, rfl⟩
  obtain ⟨g, hbuild, hcounts, hids⟩ := Dependencies.addAll_counts hcomparable fun j hj =>
    (hrecords j hj).2
  obtain rfl := Dependencies.load_eq hload
  refine ⟨_, _, hload, by rw [Dependencies.build, hbuild], ?_, fun hfew => ?_⟩
  · -- The names of the records are all new, and what they depend on is not.
    have hnew : (symbols.keys.map Json.str).foldl Dependencies.entered [] =
        symbols.keys.map Json.str :=
      Dependencies.foldl_entered_new
        (List.pairwise_map.mpr (h.keys.imp fun hne => beq_eq_false_iff_ne.mpr hne))
    rw [hids, Dependencies.namesIn, hnames, htargets, List.foldl_append, hnew]
    refine Dependencies.foldl_entered_old fun x hx => ⟨x, h.target_mem hx, ?_⟩
    obtain ⟨d, -, rfl⟩ := List.mem_map.mp hx
    exact beq_self_eq_true d
  · refine (Dependencies.page_of_known (d := { graph := g, .. }) hcomparable hcounts ?_).2 ?_
    · rintro ⟨j, hj, t, ht, hnone⟩
      have ht : t ∈ js.flatMap Dependencies.targetsOf := List.mem_flatMap.mpr ⟨j, hj, ht⟩
      rw [htargets] at ht
      have hname := h.target_mem ht
      rw [← hnames] at hname
      obtain ⟨i, hi, rfl⟩ := List.mem_map.mp hname
      have hother := hnone i hi
      obtain ⟨d, -, heq⟩ := List.mem_map.mp ht
      rw [← heq] at hother
      exact beq_eq_false_iff_ne.mp hother rfl
    · rwa [Dependencies.length_occurrences, htargets, List.length_map]

end Records

namespace Profiler

theorem lasting_closed : Lasting fun s => Closed s.shared.registry s.self.symbols where
  onText _ _ _ h := h
  onAbsorb s file source tree c h hc := by
    refine ⟨Table.nodup_keys_update _ h.keys, fun name id hid => ?_⟩
    -- A new symbol may take the place of another, but no name goes away.
    rcases Table.get?_update_cases hid with hmem | hold
    · obtain ⟨s', hs', hname, hdep⟩ := collect_symbols hc hmem
      refine ⟨s', hs', hname, fun d hd => ?_⟩
      rw [hdep] at hd
      cases hd
    · obtain ⟨s', hs', hname, hdeps⟩ := h.entries name id hold
      refine ⟨s', collect_old hc hs', hname, fun d hd => ⟨?_, (hdeps d hd).2⟩⟩
      exact Table.contains_update.mpr (.inr (hdeps d hd).1)
  onNumber _ h := h
  onRead s file source full tree h :=
    Analyze.visit_keeps (Analyze.stable_closed (setting file source full s)) {} tree (analysis s) h
  onInherit _ _ h _ := h

theorem closed_opened (files : List String) (shared : Shared) :
    Closed (opened files shared).shared.registry (opened files shared).self.symbols :=
  ⟨List.nodup_nil, fun name id h => by cases h⟩

/-- **Closure of the dependencies.** After every run of a profiler, with any files and any parser,
each name that a symbol of the project depends on is itself a symbol of the project and is not
predefined. So when the records of the symbols are loaded and their graph is made, its nodes are the
symbols and no other, and there is a page of it -- unless the symbols depend on so many names that a
number of them has no nearest double. -/
theorem dependencies_closed (parse : Parser) (files : List String) (shared : Shared)
    (calls : List Call)
    (project : String) (s : Scene Profiler) (hs : s = after parse calls (opened files shared)) :
    (∀ name id, s.self.symbols.get? name = some id → ∀ d ∈ s.shared.registry.dependency id,
      s.self.symbols.contains d = true ∧ isPredefined d = false) ∧
    ∃ loaded drawn, Dependencies.load { project } (s.shared.registry.records s.self.symbols) =
      .ok loaded ∧
      loaded.build = (.ok (), drawn) ∧
      drawn.graph.nodes.map (·.id) = s.self.symbols.keys.map Json.str ∧
      ((s.self.symbols.values.flatMap s.shared.registry.dependency).length < Data.tooLarge →
        ∃ text, drawn.page = .ok text) := by
  have hclosed : Closed s.shared.registry s.self.symbols := by
    rw [hs]
    exact lasting_closed.after calls (closed_opened files shared)
  refine ⟨fun name id hid d hd => ?_, ?_⟩
  · obtain ⟨sym, hsym, -, hdeps⟩ := hclosed.entries name id hid
    rw [Registry.dependency_of_get? hsym] at hd
    exact hdeps d hd
  · exact hclosed.build project

/-- The project of two files after it was profiled. -/
def twoFieldsProfiled : Scene Profiler :=
  after twoFieldsParser [.profile twoFieldsFiles false] (opened ["A.java", "B.java"] {})

/-- The class with the fields depends on the other one, twice, and the graph of both is drawn. -/
theorem twoFields_drawn :
    (twoFieldsProfiled.self.symbols.get? "A").map twoFieldsProfiled.shared.registry.dependency =
      some ["B", "B"] ∧
      ∃ loaded drawn, Dependencies.load { project := "p" }
          (twoFieldsProfiled.shared.registry.records twoFieldsProfiled.self.symbols) = .ok loaded ∧
        loaded.build = (.ok (), drawn) ∧ drawn.graph.nodes.map (·.id) = [.str "A", .str "B"] ∧
        ∃ text, drawn.page = .ok text := by
  have hkeys : twoFieldsProfiled.self.symbols.keys = ["A", "B"] := by decide +kernel
  have hfew : (twoFieldsProfiled.self.symbols.values.flatMap
      twoFieldsProfiled.shared.registry.dependency).length <
      Data.tooLarge := by decide +kernel
  obtain ⟨-, loaded, drawn, hload, hbuild, hnodes, hpage⟩ :=
    dependencies_closed twoFieldsParser ["A.java", "B.java"] {}
    [.profile twoFieldsFiles false] "p" twoFieldsProfiled rfl
  rw [hkeys] at hnodes
  exact ⟨by decide +kernel, loaded, drawn, hload, hbuild, hnodes, hpage hfew⟩

end Profiler

end Coupling.Project
