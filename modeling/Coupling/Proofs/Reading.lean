import Coupling.Java.ParseTree.Walk
import Coupling.Project.Structure
import Coupling.Proofs.Registry
import Coupling.Proofs.Steps
import Coupling.Proofs.Table

/-!
# What a reading of a file does

A reading changes what is known of a project in four ways only: a name is added to what a symbol
depends on, a name is added to its supertypes, an interaction is counted, an import becomes a
symbol. `Stable` says of a property that none of these can break it; such a property survives every
reading, also one that a fault ends (`visit_keeps`).

The other lemmas say what each step of a reading did if it came to its end.
-/

namespace Coupling.Project.Analyze

open Java (ParseTree NodeInfo)
open Steps

variable {c : Setting} {s : Surroundings} {a a' : Analysis}

/-! ## Elementary steps -/

theorem run_depend (owner : Option SymbolId) (name : String) (a : Analysis) :
    (depend owner name).run.run a =
      if isPredefined name then (.ok (), a)
      else if a.symbols.contains name then
        match owner with
        | some id => (.ok (), { a with registry := a.registry.addDependency id name })
        | none => (.error (.absent "dependency"), a)
      else (.error (.unknownDependency name), a) := by
  unfold depend
  by_cases hp : isPredefined name = true
  · rw [if_pos hp, if_pos hp]
    rfl
  · rw [if_neg hp, if_neg hp]
    by_cases hc : a.symbols.contains name = true
    · rw [if_pos hc, run_bind]
      simp only [run_get, hc, Bool.not_true, Bool.false_eq_true, if_false]
      cases owner <;> rfl
    · rw [if_neg hc, run_bind]
      simp only [run_get, Bool.not_eq_true _ ▸ hc, Bool.not_false, if_true]
      rfl

theorem run_interact (c : Setting) (source target : String) (a : Analysis) :
    (interact c source target).run.run a =
      if source = target then (.ok (), a)
      else if c.classes.contains source && c.classes.contains target then
        match countInteraction c.numbering a.matrix source target with
        | .ok m => (.ok (), { a with matrix := some m })
        | .error f => (.error f, a)
      else (.ok (), a) := by
  unfold interact
  by_cases he : source = target
  · rw [if_pos he, if_pos he]
    rfl
  · rw [if_neg he, if_neg he]
    cases hs : Table.contains c.classes source
    · rfl
    · cases ht : Table.contains c.classes target
      · rfl
      · simp only [Bool.not_true, Bool.or_false, Bool.false_eq_true, if_false,
          Bool.and_self, if_true]
        rw [run_bind, run_get]
        simp only
        rw [run_bind, run_liftExcept]
        cases countInteraction c.numbering a.matrix source target <;> rfl

/-- A registry in which a symbol has one supertype more. -/
def withSuper (c : Setting) (id : SymbolId) (type : String) (a : Analysis) : Analysis :=
  { a with registry := a.registry.addSuper id (resolve c.full type) }

theorem run_inherit (c : Setting) (id : SymbolId) (type : String) (a : Analysis) :
    (inherit c id type).run.run a =
      (refer c (some id) ((withSuper c id type a).registry.fullName id) type).run.run
        (withSuper c id type a) := by
  unfold inherit
  rw [run_bind, run_modify]
  simp only
  rw [run_bind, run_get]
  rfl

/-! ## Imports -/

/-- The symbol of an import, which depends on nothing and has no methods. -/
structure IsImport (s : Symbol) : Prop where
  kind : s.kind = .import
  dependency : s.dependency = []
  methods : s.methods = ∅

/-- A symbol has the lines and the code of a node of a source. -/
def Cut (source : String) (info : NodeInfo) (s : Symbol) : Prop := ∃ last, info.stop = some last ∧
  s.startLine = info.start.start.line ∧ s.stopLine = last.start.line ∧
  s.code = codeOf source info last

/-- What is known of a project with one symbol more. -/
def withSymbol (s : Symbol) (a : Analysis) : Analysis :=
  { a with registry := a.registry.add s, symbols := a.symbols.put s.fullName a.registry.size }

/-- An import changes nothing, or it adds a symbol under a name that is neither a class nor a
symbol. -/
theorem run_addImport_cases (c : Setting) (info : NodeInfo) (t : ParseTree) (a : Analysis) :
    ((addImport c info t).run.run a).2 = a ∨
      ∃ i, (IsImport i ∧ Cut c.source info i) ∧ c.classes.contains i.fullName = false ∧
        a.symbols.contains i.fullName = false ∧
        ((addImport c info t).run.run a).2 = withSymbol i a := by
  unfold addImport textOf symbolAt
  cases t.first? .qualifiedName with
  | none => exact .inl rfl
  | some q =>
    simp only [run_bind, run_need, run_pure, run_get]
    split
    · next hfresh =>
      rw [Bool.and_eq_true, Bool.not_eq_true', Bool.not_eq_true'] at hfresh
      unfold Cut
      cases info.stop with
      | none => exact .inl rfl
      | some last =>
        exact .inr ⟨_, ⟨⟨rfl, rfl, rfl⟩, last, rfl, rfl, rfl, rfl⟩, hfresh.1, hfresh.2, rfl⟩
    · exact .inl rfl

/-! ## Declarations -/

theorem lookUp_eq_ok {α : Type} {t : Table α} {key : String} {v : α} :
    lookUp t key = .ok v ↔ t.get? key = some v := by
  unfold lookUp
  cases t.get? key with
  | none | some w => simp

/-- A class declaration is looked up by its simple name, and its class by the full name. -/
theorem classOf_eq_ok {t : ParseTree} {id : SymbolId} (h : (classOf c t).run.run a = (.ok id, a')) :
    a' = a ∧ ∃ n name, t.first? .identifier = some n ∧ c.full.get? n.text = some name ∧
      c.classes.get? name = some id := by
  unfold classOf at h
  obtain ⟨text, a₁, htext, h₁⟩ := bind_eq_ok.mp h
  obtain ⟨n, hn, rfl, rfl⟩ := textOf_eq_ok.mp htext
  obtain ⟨name, a₂, hname, h₂⟩ := bind_eq_ok.mp h₁
  obtain ⟨hfound, rfl⟩ := liftExcept_eq_ok.mp hname
  obtain ⟨hid, rfl⟩ := liftExcept_eq_ok.mp h₂
  exact ⟨rfl, n, name, hn, lookUp_eq_ok.mp hfound, lookUp_eq_ok.mp hid⟩

theorem enterType_eq_ok {kind : SymbolKind} {t : ParseTree} {id : SymbolId}
    (h : (enterType c kind t).run.run a = (.ok id, a')) :
    (classOf c t).run.run a = (.ok id, a) ∧ ∃ types, supertypes kind t = .ok types ∧
      (types.forM (inherit c id)).run.run a = (.ok (), a') := by
  unfold enterType at h
  obtain ⟨id', a₁, hid, h₁⟩ := bind_eq_ok.mp h
  obtain ⟨types, a₂, htypes, h₂⟩ := bind_eq_ok.mp h₁
  obtain ⟨hlisted, rfl⟩ := liftExcept_eq_ok.mp htypes
  obtain ⟨⟨⟩, a₃, hsupers, h₃⟩ := bind_eq_ok.mp h₂
  cases h₃
  obtain ⟨rfl, -⟩ := classOf_eq_ok hid
  exact ⟨hid, types, hlisted, hsupers⟩

/-! ## What no reading can break -/

/-- A property that none of the changes a reading makes can break, imports apart. -/
structure StableInside (c : Setting) (P : Analysis → Prop) : Prop where
  onDependency : ∀ a id name, P a → isPredefined name = false → a.symbols.contains name = true →
    P { a with registry := a.registry.addDependency id name }
  onSuper : ∀ a id name, P a → P { a with registry := a.registry.addSuper id name }
  onCount : ∀ a m source target, P a → countInteraction c.numbering a.matrix source target = .ok m →
    P { a with matrix := some m }

/-- A property that none of the changes a reading makes can break. -/
structure Stable (c : Setting) (P : Analysis → Prop) : Prop extends StableInside c P where
  onImport : ∀ a i, P a → IsImport i → c.classes.contains i.fullName = false →
    a.symbols.contains i.fullName = false → P (withSymbol i a)

namespace StableInside

variable {P : Analysis → Prop}

theorem keeps_depend (h : StableInside c P) (owner : Option SymbolId) (name : String) :
    Keeps P (depend owner name) := by
  intro a ha
  rw [run_depend]
  split
  · exact ha
  · next hp =>
    split
    · next hc =>
      cases owner with
      | none => exact ha
      | some id => exact h.onDependency a id name ha (Bool.eq_false_iff.mpr hp) hc
    · exact ha

theorem keeps_interact (h : StableInside c P) (source target : String) :
    Keeps P (interact c source target) := by
  intro a ha
  rw [run_interact]
  split
  · exact ha
  · split
    · split
      · next m hm => exact h.onCount a m source target ha hm
      · exact ha
    · exact ha

theorem keeps_refer (h : StableInside c P) (owner : Option SymbolId) (source type : String) :
    Keeps P (refer c owner source type) :=
  keeps_bind (keeps_forM _ (h.keeps_depend owner)) fun _ => keeps_forM _ (h.keeps_interact source)

theorem keeps_inherit (h : StableInside c P) (id : SymbolId) (type : String) :
    Keeps P (inherit c id type) := by
  intro a ha
  rw [run_inherit]
  exact h.keeps_refer _ _ _ _ (h.onSuper a id _ ha)

theorem keeps_need {α : Type} (property : String) (part : Option α) :
    Keeps P (need property part : Analyze α) := by
  intro a ha
  rw [run_need]
  cases part <;> exact ha

theorem keeps_textOf (part : Option ParseTree) : Keeps P (textOf part : Analyze String) :=
  keeps_bind (keeps_need _ part) fun _ => keeps_pure _

theorem keeps_enterType (h : StableInside c P) (kind : SymbolKind) (t : ParseTree) :
    Keeps P (enterType c kind t) := by
  refine keeps_bind ?_ fun id => keeps_bind (keeps_liftExcept _) fun _ =>
    keeps_bind (keeps_forM _ (h.keeps_inherit id)) fun _ => keeps_pure _
  exact keeps_bind (keeps_textOf _) fun _ => keeps_bind (keeps_liftExcept _) fun _ =>
    keeps_liftExcept _

theorem keeps_enterMethod (h : StableInside c P) (s : Surroundings) (t : ParseTree) :
    Keeps P (enterMethod c s t) := by
  refine keeps_bind ?_ fun id => keeps_bind keeps_get fun _ =>
      keeps_bind (h.keeps_depend _ _) fun _ =>
    keeps_bind (keeps_liftExcept _) fun _ => keeps_bind (keeps_forM _ (h.keeps_refer _ _)) fun _ =>
      keeps_pure _
  exact keeps_bind (keeps_liftExcept _) fun _ => keeps_bind (keeps_liftExcept _) fun _ =>
    keeps_bind keeps_get fun _ => keeps_liftExcept _

end StableInside

variable {P : Analysis → Prop}

theorem Stable.keeps_addImport (h : Stable c P) (info : NodeInfo) (t : ParseTree) :
    Keeps P (addImport c info t) := by
  intro a ha
  rcases run_addImport_cases c info t a with heq | ⟨i, ⟨hi, -⟩, hc, hs, heq⟩
  · rw [heq]
    exact ha
  · rw [heq]
    exact h.onImport a i ha hi hc hs

mutual

/-- A reading keeps a property that its imports keep, if nothing else can break it. -/
theorem visit_keeps_inside (h : StableInside c P) (s : Surroundings) : ∀ t : ParseTree,
    (∀ info cs, .node info cs ∈ t.nodes → Role.ofForm info.form = .import →
      Keeps P (addImport c info (.node info cs))) →
    Keeps P (visit c s t)
  | .token _, _ | .skipped _, _ | .missing _, _ => fun _ ha => ha
  | .node info cs, himports => by
    have hparts (s : Surroundings) : Keeps P (visitAll c s cs) :=
      visitAll_keeps_inside h s cs fun info' cs' hn =>
        himports info' cs' (List.mem_cons_of_mem _ hn)
    rw [visit]
    cases hrole : Role.ofForm info.form with
    | package => exact keeps_bind (StableInside.keeps_textOf _) fun _ => keeps_pure _
    | «import» => exact himports info cs List.mem_cons_self hrole
    | type kind =>
      exact keeps_bind (h.keeps_enterType kind _) fun _ => keeps_bind keeps_get fun _ => hparts _
    | method => exact keeps_bind (h.keeps_enterMethod s _) fun _ => hparts _
    | field => exact keeps_bind (StableInside.keeps_textOf _) fun _ => h.keeps_refer _ _ _
    | other => exact hparts s

theorem visitAll_keeps_inside (h : StableInside c P) (s : Surroundings) : ∀ ts : List ParseTree,
    (∀ info cs, .node info cs ∈ ParseTree.nodesOf ts → Role.ofForm info.form = .import →
      Keeps P (addImport c info (.node info cs))) → Keeps P (visitAll c s ts)
  | [], _ => fun _ ha => ha
  | t :: ts, himports => by
    rw [visitAll]
    exact keeps_bind
      (visit_keeps_inside h s t fun info cs hn => himports info cs (List.mem_append_left _ hn))
      fun _ => visitAll_keeps_inside h s ts fun info cs hn =>
        himports info cs (List.mem_append_right _ hn)

end

/-- A reading keeps every stable property, also if a fault ends it. -/
theorem visit_keeps (h : Stable c P) (s : Surroundings) (t : ParseTree) : Keeps P (visit c s t) :=
  visit_keeps_inside h.toStableInside s t fun info cs _ _ => h.keeps_addImport info (.node info cs)

/-- A reading leaves every symbol what it was, its supertypes and dependencies apart. -/
theorem stable_later (c : Setting) (r : Registry) : Stable c fun a => r.Later a.registry where
  onDependency _ id name h _ _ := h.trans (.addDependency _ id name)
  onSuper _ id name h := h.trans (.addSuper _ id name)
  onCount _ _ _ _ h _ := h
  onImport _ i h _ _ _ := h.trans (.add _ i)

end Coupling.Project.Analyze
