import Coupling.Proofs.TwoReadings

/-!
# Projects with other numbers

A symbol has a number, and nothing else in a project depends on what the number is. Two registries
are compared by a renumbering that takes the symbols of the one to those of the other (`Relabels`):
then the records of a table are the same in both (`Relabels.records_eq`), and classes inherit alike
(`Relabels.inheritAll_eq`).

Every symbol of a profiler has been added after the profiler was made, and its methods after it
(`Grown`).
-/

namespace Coupling.Project

open Steps

/-! ## Registries with other numbers -/

/-- The symbols of one registry are those of another with other numbers, for the numbers that count.
What a symbol has as methods counts too, and is younger. -/
def Relabels (φ : Nat → Nat) (P : Nat → Prop) (r r' : Registry) : Prop :=
  ∀ id, P id → ∃ i, r.get? id = some i ∧ r'.get? (φ id) = some (i.move φ) ∧
    ∀ m ∈ i.methods.values, P m ∧ id < m ∧ φ id < φ m

namespace Relabels

variable {φ : Nat → Nat} {P : Nat → Prop} {r r' : Registry} (h : Relabels φ P r r')
include h

theorem fullName_eq {id : Nat} (hid : P id) : r'.fullName (φ id) = r.fullName id := by
  obtain ⟨i, hi, hi', -⟩ := h id hid
  rw [Registry.fullName_of_get? hi, Registry.fullName_of_get? hi']
  rfl

theorem hierarchy_eq {id : Nat} (hid : P id) : r'.hierarchy (φ id) = r.hierarchy id := by
  obtain ⟨i, hi, hi', -⟩ := h id hid
  rw [Registry.hierarchy_of_get? hi, Registry.hierarchy_of_get? hi']
  rfl

/-- The records of a table do not depend on the numbers of its symbols. -/
theorem records_eq {t : Table SymbolId} (ht : ∀ id ∈ t.values, P id) :
    r'.records (t.map φ) = r.records t := by
  unfold Registry.records
  rw [Table.values_map, List.map_map]
  refine congrArg Json.arr (List.map_congr_left fun (id : Nat) hid => ?_)
  exact (record_move h (ht id hid) (by omega) (by omega)).symm

variable {classes : ClassTable} (hclasses : ∀ id ∈ classes.values, P id) (n : Numbering)
include hclasses

theorem inheritRows_eq (depth : Nat) {id : Nat} (hid : P id) :
    inheritRows r' (classes.map φ) n depth (φ id) = inheritRows r classes n depth id := by
  induction depth generalizing id with
  | zero => rfl
  | succ depth ih =>
    rw [inheritRows, inheritRows, h.fullName_eq hid, h.hierarchy_eq hid]
    -- A supertype is looked up by its name, and what is found is a class of the table.
    have hsuper (super : String) {α : Type} (k : SymbolId → Inherit α) (k' : SymbolId → Inherit α)
        (hk : ∀ id, P id → k' (φ id) = k id) :
        (liftExcept (lookUp (classes.map φ) super) >>= k' : Inherit α) =
          liftExcept (lookUp classes super) >>= k := by
      unfold lookUp
      rw [Table.get?_map]
      cases hget : Table.get? classes super with
      | none => rfl
      | some id => exact hk id (hclasses id (Table.mem_values_of_get? hget))
    cases r.hierarchy id with
    | nil => rfl
    | cons super supers =>
      simp only
      congr 1
      congr 1
      funext super
      congr 1
      funext row
      exact hsuper super _ _ fun id hid => by rw [ih hid]

theorem inheritFor_eq {id : Nat} (hid : P id) :
    inheritFor r' (classes.map φ) n (φ id) = inheritFor r classes n id := by
  unfold inheritFor
  rw [Table.size_map]
  exact h.inheritRows_eq hclasses n _ hid

theorem inheritAll_eq : inheritAll r' (classes.map φ) n = inheritAll r classes n := by
  have hids : ∀ id ∈ classes.values, inheritFor r' (classes.map φ) n (φ id) =
      inheritFor r classes n id :=
    fun id hid => h.inheritFor_eq hclasses n (hclasses id hid)
  unfold inheritAll
  rw [Table.values_map]
  generalize classes.values = ids at hids
  induction ids with
  | nil => rfl
  | cons id ids ih =>
    obtain ⟨hid, hrest⟩ := List.forall_mem_cons.mp hids
    rw [List.map_cons, List.forM, List.forM, hid, ih hrest]

end Relabels

/-! ## Numbers of a profiler -/

/-- From a number on, methods are younger than what they belong to, and the tables hold symbols from
there on. -/
structure Rooted (start : Nat) (classes : ClassTable) (a : Analysis) : Prop where
  start_le : start ≤ a.registry.size
  classes : ∀ id ∈ classes.values, start ≤ id ∧ id < a.registry.size
  symbols : ∀ id ∈ a.symbols.values, start ≤ id ∧ id < a.registry.size
  methods : ∀ id, start ≤ id → ∀ m ∈ (a.registry.methods id).values, id < m ∧ m < a.registry.size

/-- A change that leaves the methods of symbols leaves all this. -/
theorem Rooted.change {start : Nat} {classes : ClassTable} {a : Analysis}
    (h : Rooted start classes a) (i : SymbolId)
    {f : Symbol → Symbol} (hf : ∀ s, (f s).methods = s.methods) :
    Rooted start classes { a with registry := a.registry.change i f } where
  start_le := by rw [Registry.size_change]; exact h.start_le
  classes id hid := by rw [Registry.size_change]; exact h.classes id hid
  symbols id hid := by rw [Registry.size_change]; exact h.symbols id hid
  methods id hle m hm := by
    rw [Registry.methods_change hf] at hm
    rw [Registry.size_change]
    exact h.methods id hle m hm

theorem Analyze.stable_rooted (start : Nat) (c : Setting) :
    Analyze.Stable c (Rooted start c.classes) where
  onDependency a id name h _ _ := h.change id fun _ => rfl
  onSuper a id name h := h.change id fun _ => rfl
  onCount _ _ _ _ h _ := ⟨h.start_le, h.classes, h.symbols, h.methods⟩
  onImport a i h hi _ _ := by
    have hsize : (a.registry.add i).size = a.registry.size + 1 := Registry.size_add _ _
    refine ⟨?_, fun id hid => ?_, fun id hid => ?_, fun id hle m hm => ?_⟩
    · exact Nat.le_trans h.start_le (hsize ▸ Nat.le_succ _)
    · obtain ⟨hle, hlt⟩ := h.classes id hid
      exact ⟨hle, hsize ▸ Nat.lt_succ_of_lt hlt⟩
    · obtain ⟨e, he, rfl⟩ := List.mem_map.mp hid
      rcases Table.mem_putInto he with rfl | hold
      · exact ⟨h.start_le, hsize ▸ Nat.lt_succ_self _⟩
      · obtain ⟨hle, hlt⟩ := h.symbols e.2 (List.mem_map_of_mem hold)
        exact ⟨hle, hsize ▸ Nat.lt_succ_of_lt hlt⟩
    · have hm' : m ∈ (a.registry.methods id).values := (Registry.methods_add hi.methods id) ▸ hm
      obtain ⟨hyounger, hlt⟩ := h.methods id hle m hm'
      exact ⟨hyounger, hsize ▸ Nat.lt_succ_of_lt hlt⟩

/-- A class stays a symbol. -/
theorem Analyze.stable_contains (c : Setting) :
    Analyze.Stable c fun a => ∀ name, c.classes.contains name = true →
    a.symbols.contains name = true where
  onDependency _ _ _ h _ _ := h
  onSuper _ _ _ h := h
  onCount _ _ _ _ h _ := h
  onImport a i h _ _ _ := by
    intro name hname
    show (a.symbols.put i.fullName a.registry.size).contains name = true
    rw [Table.contains_put, h name hname, Bool.or_true]

namespace Profiler

/-- What is true of a profiler that was made when the registry had `start` symbols. -/
structure Grown (start : Nat) (s : Scene Profiler) : Prop where
  sound : Sound s
  nodup_classes : (classTable s).keys.Nodup
  nodup_full : s.self.full.keys.Nodup
  symbol_of_class : ∀ name, (classTable s).contains name = true →
    s.self.symbols.contains name = true
  rooted : Rooted start (classTable s) (analysis s)

theorem grown_opened (files : List String) (shared : Shared) :
    Grown shared.registry.size (opened files shared) := by
  have hempty := classes_opened files shared
  refine ⟨sound_opened files shared, ?_, List.nodup_nil, ?_, Nat.le_refl _, ?_, ?_, ?_⟩
  · rw [hempty]
    exact List.nodup_nil
  · rw [hempty]
    intro name hname
    cases hname
  · rw [hempty]
    intro id hid
    cases hid
  · intro id hid
    cases hid
  · intro id hle m hm
    rw [show (analysis (opened files shared)).registry.methods id =
      ∅ from Registry.methods_eq_empty hle] at hm
    cases hm

/-- The numbers in a table to which a collection was added. -/
theorem mem_values_update {t u : Table SymbolId} {start size size' : Nat} (hu : u.keys.Nodup)
    (hsize : size ≤ size') (hle : start ≤ size) (ht : ∀ id ∈ t.values, start ≤ id ∧ id < size)
    (hnew : ∀ name id, u.get? name = some id → size ≤ id ∧ id < size') :
    ∀ id ∈ (t.update u).values, start ≤ id ∧ id < size' := by
  intro id hid
  obtain ⟨e, he, rfl⟩ := List.mem_map.mp hid
  rcases Table.mem_entries_update (show e ∈ (t.update ⟨u.entries⟩).entries from he) with hmem | hold
  · obtain ⟨hge, hlt⟩ := hnew e.1 e.2 ((Table.mem_entries_iff hu).mp hmem)
    exact ⟨Nat.le_trans hle hge, hlt⟩
  · obtain ⟨hge, hlt⟩ := ht e.2 (List.mem_map_of_mem hold)
    exact ⟨hge, Nat.lt_of_lt_of_le hlt hsize⟩

/-- What was printed makes no difference. -/
theorem Grown.texts {start : Nat} {s : Scene Profiler} (h : Grown start s)
    (printed complained : String) :
    Grown start { s with shared := { s.shared with printed, complained } } :=
  { h with sound := { h.sound with }, rooted := { h.rooted with } }

theorem lasting_grown (start : Nat) : Lasting (Grown start) where
  onText _ _ _ h := h.texts _ _
  onNumber s h := { h with sound := lasting_sound.onNumber s h.sound, rooted := { h.rooted with } }
  onInherit s matrix h hm :=
    { h with sound := lasting_sound.onInherit s matrix h.sound hm, rooted := { h.rooted with } }
  onRead s file source full tree h := by
    let c := setting file source full s
    exact ⟨lasting_sound.onRead s file source full tree h.sound, h.nodup_classes, h.nodup_full,
      Analyze.visit_keeps (Analyze.stable_contains c) {} tree (analysis s) h.symbol_of_class,
      Analyze.visit_keeps (Analyze.stable_rooted start c) {} tree (analysis s) h.rooted⟩
  onAbsorb s file source tree c h hc := by
    have htable : classTable (absorb file c s) = (classTable s).update c.classes :=
      classTable_absorb h.sound.own
    have hreached := reached_of_collect hc
    have hsize := hreached.size_le
    refine ⟨lasting_sound.onAbsorb s file source tree c h.sound hc, ?_,
      Table.nodup_keys_put _ _ h.nodup_full, ?_, Nat.le_trans h.rooted.start_le hsize, ?_, ?_, ?_⟩
    · rw [htable]
      exact Table.nodup_keys_update _ h.nodup_classes
    · rw [htable]
      intro name hname
      refine Table.contains_update.mpr ((Table.contains_update.mp hname).imp (fun hmem => ?_)
        (h.symbol_of_class name))
      exact Table.contains_iff_mem_keys.mp (collect_contains_symbol hc
        (Table.contains_iff_mem_keys.mpr hmem))
    · rw [htable]
      exact mem_values_update hreached.nodup.1 hsize h.rooted.start_le h.rooted.classes
        fun name id hid => hreached.mem_range (.inl hid)
    · exact mem_values_update hreached.nodup.2.1 hsize h.rooted.start_le h.rooted.symbols
        fun name id hid => hreached.mem_range (.inr hid)
    · intro id hle m hm
      rcases Nat.lt_or_ge id s.shared.registry.size with hold | hnew
      · obtain ⟨i, hi⟩ := Registry.exists_get? hold
        have hsame : c.registry.methods id = s.shared.registry.methods id := by
          rw [Registry.methods_of_get? (collect_old hc hi), Registry.methods_of_get? hi]
        obtain ⟨hyounger, hlt⟩ := h.rooted.methods id hle m (hsame ▸ hm)
        exact ⟨hyounger, Nat.lt_of_lt_of_le hlt hsize⟩
      · exact hreached.methods_later hnew hm

/-! ## Projects that say the same -/

/-- Two projects that say the same: the same classes and symbols in the same order, with the same
records, the same simple names of files, and the same matrix. -/
structure Same (s s' : Scene Profiler) : Prop where
  classNames : (classTable s').keys = (classTable s).keys
  classRecords : s'.shared.registry.records (classTable s') =
    s.shared.registry.records (classTable s)
  symbolNames : s'.self.symbols.keys = s.self.symbols.keys
  symbolRecords : s'.shared.registry.records s'.self.symbols =
    s.shared.registry.records s.self.symbols
  full : s'.self.full = s.self.full
  matrix : s'.self.matrix = s.self.matrix

/-- Two projects that differ in the numbers of their symbols only. -/
structure Renumbered (φ : Nat → Nat) (P : Nat → Prop) (s s' : Scene Profiler) : Prop where
  relabels : Relabels φ P s.shared.registry s'.shared.registry
  mem_classes : ∀ id ∈ (classTable s).values, P id
  mem_symbols : ∀ id ∈ s.self.symbols.values, P id
  classes : classTable s' = (classTable s).map φ
  symbols : s'.self.symbols = s.self.symbols.map φ
  full : s'.self.full = s.self.full
  matrix : s'.self.matrix = s.self.matrix

namespace Renumbered

variable {φ : Nat → Nat} {P : Nat → Prop} {s s' : Scene Profiler} (h : Renumbered φ P s s')
include h

/-- Numbers make no difference to what a project says. -/
theorem same : Same s s' where
  classNames := by rw [h.classes, Table.keys_map]
  classRecords := by rw [h.classes, h.relabels.records_eq h.mem_classes]
  symbolNames := by rw [h.symbols, Table.keys_map]
  symbolRecords := by rw [h.symbols, h.relabels.records_eq h.mem_symbols]
  full := h.full
  matrix := h.matrix

theorem withMatrix (matrix : Option Matrix) :
    Renumbered φ P { s with self := { s.self with matrix } }
      { s' with self := { s'.self with matrix } } :=
  ⟨h.relabels, h.mem_classes, h.mem_symbols, h.classes, h.symbols, h.full, rfl⟩

end Renumbered

/-- What inheriting does: it changes the matrix. -/
theorem run_inheriting {α : Type} (step : Registry → ClassTable → Numbering → Inherit α)
    (s : Scene Profiler) :
    (inheriting step).run.run s =
      let out := (step s.shared.registry (classTable s) s.shared.numbering).run.run s.self.matrix
      (out.1, { s with self := { s.self with matrix := out.2 } }) := by
  unfold inheriting Action.change
  rcases hout : (step s.shared.registry (classTable s) s.shared.numbering).run.run s.self.matrix
    with ⟨result, m⟩
  simp only [run_bind, run_get, hout, run_modify, run_liftExcept]

end Profiler

end Coupling.Project
