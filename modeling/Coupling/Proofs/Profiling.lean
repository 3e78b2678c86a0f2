import Coupling.Project.Profiler
import Coupling.Proofs.Cells
import Coupling.Proofs.Collection
import Coupling.Proofs.Reading

/-!
# Runs of a profiler

A profiler may be asked to collect, to analyse, to do both, or to let a class inherit, in any order
and as often as one likes; the files may be others each time, and a call that a fault ends leaves
what was done before it. `after` is what such a run leads to. It changes a project in five ways
only; `Lasting` says of a property that none of them can break it, and such a property holds after
every run (`Lasting.after`).
-/

namespace Coupling.Project

open Steps

/-! ## Inheriting -/

/-- There is a matrix or not, as said, and if there is one it has a cell for any two names. -/
structure Ample (n : Numbering) (there : Bool) (matrix : Option Matrix) : Prop where
  isSome : matrix.isSome = there
  covers : ∀ m, matrix = some m → m.Covers n.names.length

section Inherit

variable {registry : Registry} {classes : ClassTable} {n : Numbering} {there : Bool}

theorem ownRow_eq_ok {name : String} {m m' : Option Matrix} {r : Nat × Array Int64}
    (h : (ownRow n name).run.run m = (.ok r, m')) :
    m' = m ∧ n.index? name = some r.1 ∧ ∃ m₀, m = some m₀ ∧ m₀.rows[r.1]? = some r.2 := by
  unfold ownRow at h
  obtain ⟨i, m₁, hi, h₁⟩ := bind_eq_ok.mp h
  obtain ⟨hindex, rfl⟩ := liftExcept_eq_ok.mp hi
  obtain ⟨m₂, m₃, hget, h₂⟩ := bind_eq_ok.mp h₁
  cases hget
  cases m₁ with
  | none => cases h₂
  | some m₀ =>
    obtain ⟨row, m₄, hrow, h₃⟩ := bind_eq_ok.mp h₂
    obtain ⟨hrow', rfl⟩ := liftExcept_eq_ok.mp hrow
    cases h₃
    exact ⟨rfl, Numbering.index_eq_ok.mp hindex, m₀, rfl, Matrix.row_eq_ok.mp hrow'⟩

theorem keeps_ownRow (name : String) : Keeps (Ample n there) (ownRow n name) := by
  refine keeps_bind (keeps_liftExcept _) fun i => keeps_bind keeps_get fun matrix => ?_
  cases matrix with
  | none => exact keeps_throw _
  | some m => exact keeps_bind (keeps_liftExcept _) fun _ => keeps_pure _

/-- A class that inherits leaves a cell for any two classes, and a row that it gives reaches over
all of them. -/
theorem inheritRows_ample (depth : Nat) (id : SymbolId) (m : Option Matrix) (hm : Ample n there m) :
    Ample n there ((inheritRows registry classes n depth id).run.run m).2 ∧
      ∀ given m', (inheritRows registry classes n depth id).run.run m = (.ok given, m') →
        ∀ row, given = some row → n.names.length ≤ row.size := by
  induction depth generalizing id m with
  | zero => exact ⟨hm, fun given m' h => by cases h⟩
  | succ depth ih =>
    rw [inheritRows]
    simp only
    split
    · refine ⟨keeps_bind (keeps_ownRow _) (fun _ => keeps_pure _) m hm, fun given m' h row hgiven =>
        ?_⟩
      obtain ⟨r, m₁, hr, h₁⟩ := bind_eq_ok.mp h
      obtain ⟨rfl, hindex, m₀, rfl, hrow⟩ := ownRow_eq_ok hr
      cases h₁
      cases hgiven
      obtain ⟨row, hrow', hsize⟩ := hm.covers m₀ rfl r.1 (Numbering.index?_lt hindex)
      rw [hrow, Option.some_inj] at hrow'
      rw [hrow']
      exact hsize
    · refine ⟨keeps_bind (keeps_forM _ fun super => ?_) (fun _ => keeps_pure none) m hm,
        fun given m' h row hgiven => ?_⟩
      · refine keeps_bind (keeps_ownRow _) fun r => keeps_bind (keeps_liftExcept _) fun superId =>
          ?_
        refine keeps_bind_of (ih superId) fun given hgiven => ?_
        cases given with
        | none => exact keeps_throw _
        | some row =>
          refine keeps_modify fun m hm => ⟨by rw [Option.isSome_map, hm.isSome], fun m' hm' => ?_⟩
          obtain ⟨m₀, rfl, rfl⟩ := Option.map_eq_some_iff.mp hm'
          exact (hm.covers m₀ rfl).addRow r.1 (hgiven row rfl)
      · -- A class with supertypes gives no row.
        obtain ⟨_, m₁, _, h₁⟩ := bind_eq_ok.mp h
        cases h₁
        cases hgiven

theorem keeps_inheritFor (id : SymbolId) : Keeps (Ample n there)
    (inheritFor registry classes n id) :=
  fun m hm => (inheritRows_ample _ id m hm).1

theorem keeps_inheritAll : Keeps (Ample n there) (inheritAll registry classes n) :=
  keeps_forM _ fun id => keeps_bind (keeps_inheritFor id) fun _ => keeps_pure _

end Inherit

namespace Profiler

/-! ## Runs -/

/-- What a profiler can be asked to do. -/
inductive Call where
  | collect (fs : Files)
  | analyze (fs : Files)
  | profile (fs : Files) (inherited : Bool)
  | inherit (id : SymbolId)

def Call.action (parse : Parser) : Call → Action Profiler Unit
  | .collect fs => collectAll parse fs
  | .analyze fs => analyzeAll parse fs
  | .profile fs inherited => Profiler.profile parse fs inherited
  | .inherit id => do let _ ← inheriting fun r c n => inheritFor r c n id

/-- What calls lead to, one after the other, whether or not a fault ends them. -/
def after (parse : Parser) (calls : List Call) (s : Scene Profiler) : Scene Profiler :=
  calls.foldl (fun s call => ((call.action parse).run.run s).2) s

/-- A new profiler beside the analysers that are there. -/
def opened (files : List String) (shared : Shared) : Scene Profiler :=
  ⟨(Profiler.new files shared).1, (Profiler.new files shared).2⟩

theorem classes_opened (files : List String) (shared : Shared) :
    classTable (opened files shared) = ∅ := by
  simp [opened, Profiler.new, classTable, Shared.table]

/-- A property that no analysis can break. -/
structure Steady (P : Scene Profiler → Prop) : Prop where
  onText : ∀ s words complained, P s →
    P { s with shared := { s.shared with printed := s.shared.printed ++ words, complained } }
  onRead : ∀ s file source full tree, P s →
    P (adopt ((Analyze.visit (setting file source full s) {} tree).run.run (analysis s)).2 s)

/-- A property that nothing a profiler does can break. -/
structure Lasting (P : Scene Profiler → Prop) : Prop extends Steady P where
  onAbsorb : ∀ s file source tree c, P s → collect s.shared.registry file source tree = .ok c →
    P (absorb file c s)
  onNumber : ∀ s, P s → P (number s)
  onInherit : ∀ s matrix, P s →
    (∀ there, Ample s.shared.numbering there s.self.matrix →
      Ample s.shared.numbering there matrix) →
    P { s with self := { s.self with matrix } }

namespace Steady

variable {P : Scene Profiler → Prop} {parse : Parser} {fs : Files}

theorem keeps_say (h : Steady P) (line : String) : Keeps P (Action.say line) := by
  refine keeps_modify fun s hs => ?_
  have hsaid := h.onText s (line ++ "\n") s.shared.complained hs
  rwa [← String.append_assoc] at hsaid

theorem keeps_parsed (h : Steady P) (source : String) : Keeps P (Action.parsed parse source) := by
  refine keeps_bind (keeps_modify fun s hs => ?_) fun _ => keeps_pure _
  have hheard := h.onText s "" (s.shared.complained ++
    String.join ((parse source).complaints.map fun c => "line " ++ c.render ++ "\n")) hs
  rwa [String.append_empty] at hheard

theorem keeps_analyzeFile (h : Steady P) (file : String) : Keeps P (analyzeFile parse fs file) := by
  refine keeps_bind (keeps_bind keeps_get fun _ => keeps_pure _) fun p =>
    keeps_bind (keeps_liftExcept _) fun full => ?_
  refine keeps_bind (keeps_liftExcept _) fun source => keeps_bind (h.keeps_parsed source)
    fun tree => ?_
  intro s hs
  have hread := h.onRead s file source full tree hs
  rcases hr : (Analyze.visit (setting file source full s) {} tree).run.run (analysis s)
    with ⟨result, a⟩
  rw [hr] at hread
  simp only [run_bind, run_get, hr, run_set]
  cases result with
  | ok _ => exact hread
  | error f => exact h.keeps_say _ _ hread

theorem keeps_analyzeAll (h : Steady P) : Keeps P (analyzeAll parse fs) :=
  keeps_bind (keeps_bind keeps_get fun _ => keeps_pure _) fun _ => keeps_forM _ fun file =>
  h.keeps_analyzeFile file

end Steady

namespace Lasting

variable {P : Scene Profiler → Prop} {parse : Parser} {fs : Files} (h : Lasting P)
include h

theorem keeps_collectFile (file : String) : Keeps P (collectFile parse fs file) := by
  refine keeps_bind (keeps_liftExcept _) fun source => keeps_bind (h.keeps_parsed source)
    fun tree => ?_
  intro s hs
  unfold Action.shared
  simp only [run_bind, run_get, run_pure]
  split
  · next c hc => exact h.onAbsorb s file source tree c hs hc
  · exact h.keeps_say _ s hs

theorem keeps_collectAll : Keeps P (collectAll parse fs) := by
  refine keeps_bind (keeps_bind keeps_get fun _ => keeps_pure _) fun p => ?_
  exact keeps_bind (keeps_forM _ fun file => h.keeps_collectFile file) fun _ =>
    keeps_modify h.onNumber

theorem keeps_inheriting {α : Type} {step : Registry → ClassTable → Numbering → Inherit α}
    (hstep : ∀ r c n there, Keeps (Ample n there) (step r c n)) : Keeps P (inheriting step) := by
  intro s hs
  have hkept := h.onInherit s _ hs fun there =>
    hstep s.shared.registry (classTable s) s.shared.numbering there s.self.matrix
  unfold inheriting Action.change
  rcases hr : (step s.shared.registry (classTable s) s.shared.numbering).run.run s.self.matrix
    with ⟨result, m⟩
  rw [hr] at hkept
  simp only [run_bind, run_get, hr, run_modify, run_liftExcept]
  exact hkept

theorem keeps_profile (inherited : Bool) : Keeps P (profile parse fs inherited) := by
  refine keeps_bind h.keeps_collectAll fun _ => keeps_bind h.keeps_analyzeAll fun _ => ?_
  split
  · exact h.keeps_inheriting fun _ _ _ _ => keeps_inheritAll
  · exact keeps_pure _

theorem keeps_call (call : Call) : Keeps P (call.action parse) := by
  cases call with
  | collect fs => exact h.keeps_collectAll
  | analyze fs => exact h.keeps_analyzeAll
  | profile fs inherited => exact h.keeps_profile inherited
  | inherit id =>
    exact keeps_bind (h.keeps_inheriting fun _ _ _ _ => keeps_inheritFor id) fun _ => keeps_pure _

/-- A lasting property holds after every run. -/
theorem after (calls : List Call) {s : Scene Profiler} (hs : P s) :
    P (Profiler.after parse calls s) := by
  induction calls generalizing s with
  | nil => exact hs
  | cons call calls ih => exact ih (h.keeps_call call s hs)

end Lasting

end Profiler

end Coupling.Project
