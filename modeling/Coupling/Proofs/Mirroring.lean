import Coupling.Proofs.Closure
import Coupling.Proofs.Pairing
import Coupling.Proofs.SingleFiles

/-!
# A profiler among others

What a profiler answers when it is asked for something (`Ask.answer`), and what its calls leave of
what it shares with others: their class tables, their symbols (`Within`, `Spares`).

A profiler that has others beside it is compared with itself alone. Whatever the others do, its
collections find the same names and give the same answers (`Outlined`). As long as the numbering of
the classes is its own, all it does is the same (`Mirrors`): what it has is what it would have
alone, with its symbols in other places.
-/

namespace Coupling.Project.Profiler

open Java (ParseTree)
open Steps

variable {parse : Parser} {fs : Files}

/-! ## Asking a profiler -/

/-- What a profiler can be asked for. -/
inductive Ask where
  | collect (fs : Files)
  | analyze (fs : Files)
  | inherit (name : String)
  | print

namespace Ask

def action (parse : Parser) : Ask → Action Profiler (Option (Array Int64))
  | .collect fs => do collectAll parse fs; return none
  | .analyze fs => do analyzeAll parse fs; return none
  | .inherit name => inheritClass name
  | .print => do Profiler.print; return none

/-- Whether the numbering of the classes is used. -/
def counts : Ask → Bool
  | .collect _ => false
  | _ => true

end Ask

/-- What comes of a call: its result, and what was printed and complained about. -/
structure Answer where
  result : Except Fault (Option (Array Int64))
  printed : String
  complained : String

/-- A project about which nothing was printed yet. -/
def quiet (s : Scene Profiler) : Scene Profiler :=
  { s with shared := { s.shared with printed := "", complained := "" } }

/-- What a call leads to, whether or not a fault ends it. -/
def Ask.next (parse : Parser) (ask : Ask) (s : Scene Profiler) : Scene Profiler :=
  ((ask.action parse).run.run (quiet s)).2

def Ask.answer (parse : Parser) (ask : Ask) (s : Scene Profiler) : Answer where
  result := ((ask.action parse).run.run (quiet s)).1
  printed := (ask.next parse s).shared.printed
  complained := (ask.next parse s).shared.complained

/-! ## What calls keep -/

theorem Steady.keeps_print {P : Scene Profiler → Prop} (h : Steady P) : Keeps P print := by
  unfold print Action.printMatrix
  refine keeps_bind (keeps_bind keeps_get fun _ => keeps_pure _) fun shared => ?_
  refine keeps_bind (keeps_bind keeps_get fun _ => keeps_pure _) fun self => ?_
  cases self.matrix with
  | none => exact keeps_throw _
  | some m => exact keeps_forM _ fun _ => keeps_bind (keeps_liftExcept _) fun line =>
    h.keeps_say line

theorem Lasting.keeps_ask {P : Scene Profiler → Prop} (h : Lasting P) (ask : Ask) :
    Keeps P (ask.action parse) := by
  cases ask with
  | collect fs => exact keeps_bind h.keeps_collectAll fun _ => keeps_pure _
  | analyze fs => exact keeps_bind h.keeps_analyzeAll fun _ => keeps_pure _
  | inherit name =>
    refine keeps_bind keeps_get fun s => keeps_bind (keeps_liftExcept _) fun id => ?_
    exact h.keeps_inheriting fun _ _ _ _ => keeps_inheritFor id
  | print => exact keeps_bind h.keeps_print fun _ => keeps_pure _

/-- What a class that inherits does: it is looked up, and the matrix changes. -/
theorem run_inheritClass (name : String) (s : Scene Profiler) :
    (inheritClass name).run.run s =
      match (classTable s).get? name with
      | none => (.error (.noKey name), s)
      | some id =>
        let out := (inheritFor s.shared.registry (classTable s) s.shared.numbering id).run.run
          s.self.matrix
        (out.1, { s with self := { s.self with matrix := out.2 } }) := by
  unfold inheritClass lookUp
  rw [run_bind, run_get]
  simp only [run_bind, run_liftExcept]
  cases (classTable s).get? name with
  | none => rfl
  | some id => exact run_inheriting _ s

/-! ## What a profiler leaves of what it shares -/

/-- The other class tables are as they were, and so are the names of all symbols. -/
structure Within (s₀ s : Scene Profiler) : Prop where
  own : s.self.classes = s₀.self.classes
  size : s.shared.tables.size = s₀.shared.tables.size
  others : ∀ k, k ≠ s₀.self.classes → s.shared.tables[k]? = s₀.shared.tables[k]?
  later : s₀.shared.registry.Later s.shared.registry

theorem lasting_within (s₀ : Scene Profiler) : Lasting (Within s₀) where
  onText _ _ _ h := { h with }
  onNumber _ h := { h with }
  onInherit _ _ h _ := { h with }
  onRead s file source full tree h :=
    ⟨h.own, h.size, h.others, Analyze.visit_keeps
      (Analyze.stable_later (setting file source full s) _) {} tree _ h.later⟩
  onAbsorb s file source tree c h hc := by
    refine ⟨h.own, ?_, fun k hk => ?_, h.later.trans (collect_later hc)⟩
    · show (s.shared.tables.modify s.self.classes _).size = _
      rw [Array.size_modify, h.size]
    · show (s.shared.tables.modify s.self.classes _)[k]? = _
      rw [Array.getElem?_modify, if_neg (h.own ▸ hk.symm), h.others k hk]

theorem within_next (ask : Ask) (s : Scene Profiler) : Within s (ask.next parse s) :=
  (lasting_within s).keeps_ask ask (quiet s) ⟨rfl, rfl, fun _ _ => rfl, .refl _⟩

/-- A reading has none of a set of symbols, which are as they were. -/
structure Apart (P : Nat → Prop) (r : Registry) (classes : ClassTable) (a : Analysis) : Prop where
  spared : ∀ k id, Handle.find classes a.symbols k = some id → ¬ P id
  kept : ∀ id, P id → a.registry.get? id = r.get? id

/-- A profiler has none of these symbols; its own stand under their names. -/
structure Spares (P : Nat → Prop) (r : Registry) (s : Scene Profiler) :
    Prop extends Standing s where
  apart : Apart P r (classTable s) (analysis s)

section Spares

variable {P : Nat → Prop} {r : Registry} {c : Setting} {a a' : Analysis}

/-- The symbols are there. -/
theorem Apart.lt_size (hP : ∀ id, P id → id < r.size) {classes : ClassTable}
    (h : Apart P r classes a) {id : Nat} (hid : P id) : id < a.registry.size := by
  obtain ⟨i, hi⟩ := Registry.exists_get? (hP id hid)
  exact Registry.lt_size_of_get? ((h.kept id hid).trans hi)

theorem Apart.change (h : Apart P r c.classes a) {k : Handle} {id : SymbolId}
    (hid : k.find c.classes a.symbols = some id) (f : Symbol → Symbol) :
    Apart P r c.classes { a with registry := a.registry.change id f } := by
  refine ⟨h.spared, fun id' hid' => ?_⟩
  have hne : id ≠ id' := fun heq => h.spared k id hid (heq ▸ hid')
  rw [Registry.get?_change, if_neg hne]
  exact h.kept id' hid'

variable (hP : ∀ id, P id → id < r.size)
include hP

theorem Apart.withSymbol (h : Apart P r c.classes a) (i : Symbol) :
    Apart P r c.classes (Analyze.withSymbol i a) := by
  refine ⟨fun k id hid => ?_, fun id hid => ?_⟩
  · cases k with
    | ofClass name => exact h.spared (.ofClass name) id hid
    | ofSymbol name =>
      have hput : (a.symbols.put i.fullName a.registry.size).get? name = some id := hid
      rw [Table.get?_put] at hput
      split at hput
      · cases hput
        exact fun hnew => Nat.lt_irrefl _ (h.lt_size hP hnew)
      · exact h.spared (.ofSymbol name) id hput
  · show (a.registry.add i).get? id = r.get? id
    rw [Registry.get?_add_of_lt i (h.lt_size hP hid)]
    exact h.kept id hid

theorem Apart.granted (h : Apart P r c.classes a) (hgranted : Analyze.Granted c a a') :
    Apart P r c.classes a' := by
  cases hgranted with
  | idle => exact h
  | note hid f => exact h.change hid f
  | symbol i => exact h.withSymbol hP i
  | count m => exact { h with }

/-- The profiler goes on without these symbols. -/
theorem lasting_spares : Lasting (Spares P r) where
  onText _ _ _ h := { h with }
  onNumber _ h := { h with apart := { h.apart with } }
  onInherit _ _ h _ := { h with apart := { h.apart with } }
  onRead s file source full tree h := by
    let c := setting file source full s
    have hapart : Apart P r c.classes ((Analyze.visit c {} tree).run.run (analysis s)).2 := by
      rw [(h.consistent file source full).visit_eq tree]
      exact Analyze.carryOut_keeps (fun _ _ ha => ha.granted hP) _ h.apart
    exact ⟨lasting_standing.onRead s file source full tree h.toStanding, hapart⟩
  onAbsorb s file source tree c h hc := by
    have htable : classTable (absorb file c s) = (classTable s).update c.classes :=
      classTable_absorb h.own
    have hreached := reached_of_collect hc
    refine ⟨lasting_standing.onAbsorb s file source tree c h.toStanding hc, fun k id hid => ?_,
      fun id hid => ?_⟩
    · -- A new symbol comes after all that are kept.
      have hnew : s.shared.registry.size ≤ id → ¬ P id :=
        fun hle hid' => Nat.not_lt.mpr hle (h.apart.lt_size hP hid')
      cases k with
      | ofClass name =>
        rw [htable] at hid
        rcases Table.get?_update_cases hid with hmem | hold
        · exact hnew (hreached.mem_range
            (.inl ((Table.mem_entries_iff hreached.nodup.1).mp hmem))).1
        · exact h.apart.spared (.ofClass name) id hold
      | ofSymbol name =>
        rcases Table.get?_update_cases hid with hmem | hold
        · exact hnew (hreached.mem_range
            (.inr ((Table.mem_entries_iff hreached.nodup.2.1).mp hmem))).1
        · exact h.apart.spared (.ofSymbol name) id hold
    · obtain ⟨i, hi⟩ := Registry.exists_get? (h.apart.lt_size hP hid)
      rw [← h.apart.kept id hid, hi]
      exact collect_old hc hi

end Spares

/-! ## Collections among others -/

/-- The same was printed, and the parser complained alike. -/
def Echoes (t s : Scene Profiler) : Prop :=
  s.shared.printed = t.shared.printed ∧ s.shared.complained = t.shared.complained

/-- The same names were found. -/
structure Outlined (t s : Scene Profiler) : Prop where
  files : s.self.files = t.self.files
  full : s.self.full = t.self.full
  classNames : (classTable s).keys = (classTable t).keys
  own : t.self.classes < t.shared.tables.size
  own' : s.self.classes < s.shared.tables.size

theorem steady_outlined_right (t : Scene Profiler) : Steady (Outlined t) where
  onText _ _ _ h := { h with }
  onRead _ _ _ _ _ h := { h with }

theorem steady_outlined_left (s : Scene Profiler) : Steady (Outlined · s) where
  onText _ _ _ h := { h with }
  onRead _ _ _ _ _ h := { h with }

/-- A profiler that has not collected anything. -/
def Idle (s : Scene Profiler) : Prop := (classTable s).keys = [] ∧ s.self.matrix = none

instance (s : Scene Profiler) : Decidable (Idle s) := inferInstanceAs (Decidable (_ ∧ _))

/-- The classes are numbered as alone, if there are any to number. -/
def InForce (t s : Scene Profiler) : Prop := Idle t ∨ s.shared.numbering = t.shared.numbering

instance (t s : Scene Profiler) : Decidable (InForce t s) := inferInstanceAs (Decidable (_ ∨ _))

variable {R : Scene Profiler → Scene Profiler → Prop}

/-- The same is done to two projects when a file is collected: a line is printed, or a collection is
added that is the same but for its numbers. -/
theorem simulates_collectFile (file : String)
    (hsaid : ∀ t s source line, R t s →
      R (said line (heard parse source t)) (said line (heard parse source s)))
    (habsorb : ∀ t s source tree c, R t s → collect .empty file source tree = .ok c →
      R (absorb file (c.onto t.shared.registry) (heard parse source t))
        (absorb file (c.onto s.shared.registry) (heard parse source s))) : Simulates R
          (collectFile parse fs file) := by
  intro t s h
  rw [run_collectFile, run_collectFile]
  cases fs.read file with
  | error fault => exact ⟨rfl, h⟩
  | ok source =>
    refine ⟨rfl, ?_⟩
    simp only [collect_onto t.shared.registry, collect_onto s.shared.registry]
    cases hc : collect .empty file source (parse source).tree with
    | error fault => exact hsaid t s source _ h
    | ok c => exact habsorb t s source _ c h hc

/-- Both have the same files, and the same is done with each. -/
theorem simulates_files (hfiles : ∀ t s, R t s → s.self.files = t.self.files)
    {f : String → Action Profiler Unit}
    (hf : ∀ file, Simulates R (f file)) : Simulates R (do (← Action.self).files.forM f) := by
  unfold Action.self
  simp only [bind_assoc, pure_bind]
  exact simulates_get (fun t s h => by rw [hfiles t s h]) fun t _ _ =>
    simulates_forM t.self.files hf

theorem simulates_collectAll (hfiles : ∀ t s, R t s → s.self.files = t.self.files)
    (hfile : ∀ file, Simulates R (collectFile parse fs file))
    (hnumber : ∀ t s, R t s → R (number t) (number s)) :
    Simulates R (collectAll parse fs) := by
  have hall := simulates_bind (simulates_files hfiles hfile) fun _ => simulates_modify hnumber
  rwa [bind_assoc] at hall

section Outlined

variable {t s : Scene Profiler}

theorem Outlined.absorb (h : Outlined t s) (file : String) (c : Collected) :
    Outlined (Profiler.absorb file (c.onto t.shared.registry) t)
      (Profiler.absorb file (c.onto s.shared.registry) s) where
  files := h.files
  full := by
    show s.self.full.put file c.full = t.self.full.put file c.full
    rw [h.full]
  classNames := by
    rw [classTable_absorb h.own, classTable_absorb h.own']
    refine Table.keys_update_congr h.classNames ?_
    exact (Table.keys_shift _ c.classes).trans (Table.keys_shift _ c.classes).symm
  own := by simpa [Profiler.absorb] using h.own
  own' := by simpa [Profiler.absorb] using h.own'

theorem Outlined.texts (h : Outlined t s) (printed complained printed' complained' : String) :
    Outlined { t with shared := { t.shared with printed, complained } }
      { s with shared := { s.shared with printed := printed', complained := complained' } } :=
  { h with }

theorem Echoes.heard (h : Echoes t s) (parse : Parser) (source : String) :
    Echoes (heard parse source t) (heard parse source s) :=
  ⟨h.1, congrArg (· ++ _) h.2⟩

theorem Echoes.said (h : Echoes t s) (line : String) : Echoes (said line t) (said line s) :=
  ⟨congrArg (· ++ line ++ "\n") h.1, h.2⟩

/-- Calls that end alike, and print the same on the way, are answered alike. -/
theorem answer_eq {ask : Ask}
    (hend : ((ask.action parse).run.run (quiet s)).1 = ((ask.action parse).run.run (quiet t)).1)
    (hecho : Echoes (ask.next parse t) (ask.next parse s)) :
    ask.answer parse s = ask.answer parse t := by
  unfold Ask.answer
  rw [hend, hecho.1, hecho.2]

/-- Collections find the same names among others as alone, and print the same. -/
theorem simulates_collectAll_outlined :
    Simulates (fun t s => Echoes t s ∧ Outlined t s) (collectAll parse fs) := by
  refine simulates_collectAll (fun _ _ h => h.2.files)
    (fun file => simulates_collectFile file ?_ ?_) ?_
  · intro t s source line h
    exact ⟨(h.1.heard parse source).said line, h.2.texts _ _ _ _⟩
  · intro t s source tree c h _
    exact ⟨h.1.heard parse source, (h.2.texts _ _ _ _).absorb file c⟩
  · intro t s h
    exact ⟨h.1, { h.2 with }⟩

/-- An analysis raises the same fault among others as alone, if it raises one. -/
theorem simulates_analyzeAll_outlined : Simulates Outlined (analyzeAll parse fs) := by
  refine simulates_files (fun _ _ h => h.files) fun file => ?_
  intro t s h
  have hkept : Outlined t ((analyzeFile parse fs file).run.run s).2 :=
    (steady_outlined_right t).keeps_analyzeFile file s h
  refine ⟨?_, (steady_outlined_left _).keeps_analyzeFile file t hkept⟩
  rw [run_analyzeFile, run_analyzeFile, h.full]
  cases t.self.full.get? file with
  | none => rfl
  | some full => cases fs.read file <;> rfl

/-- A collection that comes to its end numbers the classes. -/
theorem numbering_collect (s : Scene Profiler)
    (h : ((Ask.collect fs).answer parse s).result = .ok none) :
    ((Ask.collect fs).next parse s).shared.numbering =
      ⟨(classTable ((Ask.collect fs).next parse s)).keys⟩ := by
  have hrun : ((Ask.collect fs).action parse).run.run (quiet s) =
      (.ok none, (Ask.collect fs).next parse s) :=
    Prod.ext h rfl
  obtain ⟨_, s', hall, hnone⟩ := bind_eq_ok.mp hrun
  obtain ⟨_, s₁, -, hforM⟩ := bind_eq_ok.mp hall
  obtain ⟨_, s₂, -, hnumber⟩ := bind_eq_ok.mp hforM
  cases hnumber
  have hend : (Ask.collect fs).next parse s = number s₂ := (congrArg Prod.snd hnone).symm
  rw [hend]
  rfl

variable (h : Outlined t s)
include h

/-- What a profiler is asked to collect among others is collected as alone. -/
theorem Outlined.collect (fs : Files) :
    (Ask.collect fs).answer parse s = (Ask.collect fs).answer parse t ∧
      Outlined ((Ask.collect fs).next parse t) ((Ask.collect fs).next parse s) := by
  have hquiet : Echoes (quiet t) (quiet s) ∧ Outlined (quiet t) (quiet s) :=
    ⟨⟨rfl, rfl⟩, h.texts "" "" "" ""⟩
  obtain ⟨hend, hecho, houtlined⟩ :=
    simulates_bind simulates_collectAll_outlined (fun _ => simulates_pure none) _ _ hquiet
  exact ⟨answer_eq hend hecho, houtlined⟩

/-- A collection that comes to its end puts the numbering in force. -/
theorem Outlined.inForce (fs : Files) (hend : ((Ask.collect fs).answer parse t).result = .ok none) :
    InForce ((Ask.collect fs).next parse t) ((Ask.collect fs).next parse s) := by
  have hend' : ((Ask.collect fs).answer parse s).result = .ok none := (h.collect fs).1 ▸ hend
  refine .inr ?_
  rw [numbering_collect t hend, numbering_collect s hend', (h.collect fs).2.classNames]

theorem Outlined.analyze (fs : Files) :
    ((Ask.analyze fs).answer parse s).result = ((Ask.analyze fs).answer parse t).result ∧
      Outlined ((Ask.analyze fs).next parse t) ((Ask.analyze fs).next parse s) :=
  simulates_bind simulates_analyzeAll_outlined (fun _ => simulates_pure none)
    _ _ (h.texts "" "" "" "")

/-- Whatever a profiler is asked for, it knows the same names among others as alone. -/
theorem Outlined.ask (ask : Ask) : Outlined (ask.next parse t) (ask.next parse s) := by
  have hquiet : Outlined (quiet t) (quiet s) := h.texts "" "" "" ""
  cases ask with
  | collect fs => exact (h.collect fs).2
  | analyze fs => exact (h.analyze fs).2
  | inherit name =>
    have hmatrix (s : Scene Profiler) :
        ∃ m, ((inheritClass name).run.run s).2 =
          { s with self := { s.self with matrix := m } } := by
      rw [run_inheritClass]
      cases (classTable s).get? name with
      | none => exact ⟨s.self.matrix, rfl⟩
      | some id => exact ⟨_, rfl⟩
    obtain ⟨m, hm⟩ := hmatrix (quiet t)
    obtain ⟨m', hm'⟩ := hmatrix (quiet s)
    unfold Ask.next Ask.action
    rw [hm, hm']
    exact { hquiet with }
  | print =>
    have hright : Outlined (quiet t) (Ask.print.next parse s) :=
      keeps_bind (steady_outlined_right (quiet t)).keeps_print (fun _ => keeps_pure none)
        (quiet s) hquiet
    exact keeps_bind (steady_outlined_left _).keeps_print (fun _ => keeps_pure none)
      (quiet t) hright

end Outlined

/-! ## All calls among others -/

/-- What a profiler has beside others is what it would have alone, with its symbols in other
places. -/
structure Mirrors (t s : Scene Profiler) (p : Pairing t.shared.registry s.shared.registry) :
    Prop where
  outlined : Outlined t s
  grown : Grown 0 t
  closed : Closed t.shared.registry t.self.symbols
  classes : classTable s = (classTable t).map p.place
  symbols : s.self.symbols = t.self.symbols.map p.place
  matrix : s.self.matrix = t.self.matrix

namespace Mirrors

variable {t s : Scene Profiler} {p : Pairing t.shared.registry s.shared.registry}
  (h : Mirrors t s p)
include h

theorem paired : Analyze.Paired (classTable t) (classTable s) (analysis t) (analysis s) p where
  mem_classes id hid := (h.grown.rooted.classes id hid).2
  mem_symbols id hid := (h.grown.rooted.symbols id hid).2
  classes := h.classes
  symbols := h.symbols
  matrix := h.matrix

theorem same : Same t s :=
  Renumbered.same ⟨p.relabels, h.paired.mem_classes, h.paired.mem_symbols, h.classes, h.symbols,
    h.outlined.full, h.matrix⟩

/-- What was printed makes no difference. -/
theorem texts (printed complained printed' complained' : String) :
    Mirrors { t with shared := { t.shared with printed, complained } }
      { s with shared := { s.shared with printed := printed', complained := complained' } } p :=
  ⟨h.outlined.texts _ _ _ _, h.grown.texts _ _, h.closed, h.classes, h.symbols, h.matrix⟩

theorem heard (source : String) : Mirrors (Profiler.heard parse source t)
    (Profiler.heard parse source s) p :=
  h.texts _ _ _ _

/-- A collection of a file adds the same symbols. -/
theorem absorb {file source : String} {tree : ParseTree} {c : Collected}
    (hc : collect .empty file source tree = .ok c) :
    ∃ q, p.Extends q ∧ Mirrors (Profiler.absorb file (c.onto t.shared.registry) t)
      (Profiler.absorb file (c.onto s.shared.registry) s) q := by
  have hct : collect t.shared.registry file source tree = .ok (c.onto t.shared.registry) := by
    rw [collect_onto, hc]
    rfl
  have hyounger : ∀ id i, c.registry.get? id = some i → ∀ m ∈ i.methods.values, id < m ∧
      m < c.registry.size :=
    fun id i hi m hm => (reached_of_collect hc).methods_later (Nat.zero_le id)
      (Registry.methods_of_get? hi ▸ hm)
  have honto := prolonged_onto t.shared.registry s.shared.registry hyounger
  have hext := p.extends_prolong honto
  -- What is collected is numbered after what was there, on both sides.
  have hadded {x y : Table SymbolId} (hx : ∀ id ∈ x.values, id < t.shared.registry.size)
      (hy : y = x.map p.place)
      (u : Table SymbolId) :
      y.update (u.shift s.shared.registry.size) =
        (x.update (u.shift t.shared.registry.size)).map p.onward := by
    have hnew : (u.shift t.shared.registry.size).map p.onward = u.shift s.shared.registry.size :=
      (Table.map_map (· + t.shared.registry.size) p.onward u).trans
        (Table.map_congr fun id _ => p.onward_add id)
    rw [Table.map_update, hnew, hy]
    exact congrArg (Table.update · _) (hext.map_eq hx).symm
  refine ⟨p.prolong honto, hext, h.outlined.absorb file c, ?_, ?_, ?_, ?_, h.matrix⟩
  · exact (lasting_grown 0).onAbsorb t file source tree _ h.grown hct
  · exact lasting_closed.onAbsorb t file source tree _ h.closed hct
  · rw [classTable_absorb h.outlined.own, classTable_absorb h.outlined.own']
    exact hadded h.paired.mem_classes h.classes c.classes
  · exact hadded h.paired.mem_symbols h.symbols c.symbols

theorem number : Mirrors (Profiler.number t) (Profiler.number s) p where
  outlined := { h.outlined with }
  grown := (lasting_grown 0).onNumber t h.grown
  closed := h.closed
  classes := h.classes
  symbols := h.symbols
  matrix := by
    show some (Matrix.zero (classTable s).size) = some (Matrix.zero (classTable t).size)
    rw [h.classes, Table.size_map]

/-- A reading of a file does the same, if the classes are numbered alike. -/
theorem read (hn : ∀ name, (classTable t).contains name = true →
    s.shared.numbering = t.shared.numbering)
    (file source : String) (full : Table String) (tree : ParseTree) :
    ((Analyze.visit (setting file source full s) {} tree).run.run (analysis s)).1 =
        ((Analyze.visit (setting file source full t) {} tree).run.run (analysis t)).1 ∧
      ∃ q, p.Extends q ∧ Mirrors
        (adopt ((Analyze.visit (setting file source full t) {} tree).run.run (analysis t)).2 t)
        (adopt ((Analyze.visit (setting file source full s) {} tree).run.run (analysis s)).2 s)
          q := by
  have hconsistent := h.grown.sound.consistent file source full
  obtain ⟨hend, q, hext, hq⟩ := Analyze.visit_paired hn h.paired hconsistent tree
  refine ⟨hend, q, hext, ?_, ?_, ?_, hq.classes, hq.symbols, hq.matrix⟩
  · exact { h.outlined with }
  · exact (lasting_grown 0).onRead t file source full tree h.grown
  · exact lasting_closed.onRead t file source full tree h.closed

theorem withMatrix {matrix : Option Matrix}
    (hm : ∀ there, Ample t.shared.numbering there t.self.matrix →
      Ample t.shared.numbering there matrix) :
    Mirrors { t with self := { t.self with matrix } } { s with self := { s.self with matrix } } p
      where
  outlined := { h.outlined with }
  grown := (lasting_grown 0).onInherit t matrix h.grown hm
  closed := h.closed
  classes := h.classes
  symbols := h.symbols
  matrix := rfl

end Mirrors

/-- What corresponds while a profiler is asked for something, from where its symbols were paired. -/
def Follows {r r' : Registry} (p : Pairing r r') (t s : Scene Profiler) : Prop :=
  Echoes t s ∧ ∃ q, p.Extends q ∧ Mirrors t s q

/-- The classes are numbered alike. -/
def Agree (t s : Scene Profiler) : Prop :=
  ∀ name, (classTable t).contains name = true → s.shared.numbering = t.shared.numbering

theorem InForce.agree {t s : Scene Profiler} (h : InForce t s) : Agree t s := by
  intro name hname
  refine h.resolve_left fun hidle => ?_
  have hmem := Table.contains_iff_mem_keys.mp hname
  rw [hidle.1] at hmem
  cases hmem

section Follows

variable {r r' : Registry} {p : Pairing r r'} {t s : Scene Profiler}

theorem Follows.said (h : Follows p t s) (line : String) :
    Follows p (said line t) (said line s) := by
  obtain ⟨hecho, q, hext, h⟩ := h
  exact ⟨hecho.said line, q, hext, h.texts _ _ _ _⟩

theorem Follows.reported (h : Follows p t s) (hn : Agree t s) (file : String)
    {result result' : Except Fault Unit} (hend : result' = result) :
    Follows p (reported file result t) (reported file result' s) ∧
      Agree (reported file result t) (reported file result' s) := by
  subst hend
  cases result' with
  | ok _ => exact ⟨h, hn⟩
  | error fault => exact ⟨h.said _, hn⟩

theorem simulates_collectAll_follows : Simulates (Follows p) (collectAll parse fs) := by
  refine simulates_collectAll ?_ (fun file => simulates_collectFile file ?_ ?_) ?_
  · rintro t s ⟨-, q, -, h⟩
    exact h.outlined.files
  · rintro t s source line ⟨hecho, q, hext, h⟩
    exact ⟨(hecho.heard parse source).said line, q, hext, h.texts _ _ _ _⟩
  · rintro t s source tree c ⟨hecho, q, hext, h⟩ hc
    obtain ⟨u, hu, h'⟩ := (h.heard source).absorb hc
    exact ⟨hecho.heard parse source, u, hext.trans hu, h'⟩
  · rintro t s ⟨hecho, q, hext, h⟩
    exact ⟨hecho, q, hext, h.number⟩

theorem simulates_analyzeAll_follows :
    Simulates (fun t s => Follows p t s ∧ Agree t s) (analyzeAll parse fs) := by
  refine simulates_files ?_ fun file => ?_
  · rintro t s ⟨⟨-, q, -, h⟩, -⟩
    exact h.outlined.files
  · rintro t s ⟨⟨hecho, q, hext, h⟩, hn⟩
    rw [run_analyzeFile, run_analyzeFile, h.outlined.full]
    cases t.self.full.get? file with
    | none => exact ⟨rfl, ⟨hecho, q, hext, h⟩, hn⟩
    | some full =>
      cases fs.read file with
      | error fault => exact ⟨rfl, ⟨hecho, q, hext, h⟩, hn⟩
      | ok source =>
        refine ⟨rfl, ?_⟩
        obtain ⟨hend, u, hu, h'⟩ :=
          (h.heard source).read hn file source full (parse source).tree
        have hadopted : Follows p (adopt _ (heard parse source t))
            (adopt _ (heard parse source s)) :=
          ⟨hecho.heard parse source, u, hext.trans hu, h'⟩
        exact hadopted.reported hn file hend

/-- A class inherits the same. -/
theorem simulates_inheritClass_follows (name : String) :
    Simulates (fun t s => Follows p t s ∧ Agree t s) (inheritClass name) := by
  rintro t s ⟨⟨hecho, q, hext, h⟩, hn⟩
  rw [run_inheritClass, run_inheritClass, h.classes, Table.get?_map]
  cases hid : (classTable t).get? name with
  | none => exact ⟨rfl, ⟨hecho, q, hext, h⟩, hn⟩
  | some id =>
    have hmem := Table.mem_values_of_get? hid
    have hnumbering := hn name (Table.contains_iff_exists.mpr ⟨id, hid⟩)
    have hstep := q.relabels.inheritFor_eq h.paired.mem_classes t.shared.numbering
      (h.paired.mem_classes id hmem)
    simp only [Option.map_some, hnumbering, h.matrix, hstep, true_and]
    refine ⟨⟨hecho, q, hext, ?_⟩, hn⟩
    exact h.withMatrix fun there => keeps_inheritFor id t.self.matrix

/-- The matrix is printed alike, if there is one. -/
theorem simulates_print_follows : Simulates (fun t s => Follows p t s ∧ InForce t s) print := by
  have hprint : print = get >>= fun s => Action.printMatrix s.shared.numbering s.self.matrix := rfl
  rw [hprint]
  refine simulates_get ?_ fun t s _ => ?_
  · rintro t s ⟨⟨-, q, -, h⟩, hn⟩
    rw [h.matrix]
    rcases hn with hidle | hnumbering
    · rw [hidle.2]
      rfl
    · rw [hnumbering]
  · cases t.self.matrix with
    | none => exact simulates_throw _
    | some m =>
      refine simulates_forM _ fun row => simulates_bind (simulates_liftExcept _) fun line => ?_
      exact simulates_modify fun t s h => ⟨h.1.said line, h.2⟩

/-- **A profiler beside others answers as if it were alone**, if the classes are numbered as they
would be then. -/
theorem Mirrors.ask {p : Pairing t.shared.registry s.shared.registry} (h : Mirrors t s p)
    (parse : Parser) (ask : Ask) (hn : ask.counts = true → InForce t s) :
    ask.answer parse s = ask.answer parse t ∧ ∃ q,
    p.Extends q ∧ Mirrors (ask.next parse t) (ask.next parse s) q := by
  have hquiet : Follows p (quiet t) (quiet s) := ⟨⟨rfl, rfl⟩, p, .refl p, h.texts _ _ _ _⟩
  -- What is asked for has the same outcome, and leads to projects that correspond.
  have hask : ((ask.action parse).run.run (quiet s)).1 = ((ask.action parse).run.run (quiet t)).1 ∧
      Follows p ((ask.action parse).run.run (quiet t)).2
        ((ask.action parse).run.run (quiet s)).2 := by
    cases ask with
    | collect fs => exact simulates_bind simulates_collectAll_follows (fun _ =>
      simulates_pure none) _ _ hquiet
    | analyze fs =>
      have hagree : Agree (quiet t) (quiet s) := (hn rfl).agree
      obtain ⟨hend, hfollows, -⟩ :=
        simulates_bind simulates_analyzeAll_follows (fun _ => simulates_pure none)
          _ _ ⟨hquiet, hagree⟩
      exact ⟨hend, hfollows⟩
    | inherit name =>
      have hagree : Agree (quiet t) (quiet s) := (hn rfl).agree
      obtain ⟨hend, hfollows, -⟩ := simulates_inheritClass_follows name _ _ ⟨hquiet, hagree⟩
      exact ⟨hend, hfollows⟩
    | print =>
      have hforce : InForce (quiet t) (quiet s) := hn rfl
      obtain ⟨hend, hfollows, -⟩ :=
        simulates_bind simulates_print_follows (fun _ => simulates_pure none) _ _ ⟨hquiet, hforce⟩
      exact ⟨hend, hfollows⟩
  exact ⟨answer_eq hask.1 hask.2.1, hask.2.2⟩

end Follows

end Coupling.Project.Profiler
