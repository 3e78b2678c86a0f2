import Coupling.Proofs.FlatReferences
import Coupling.Proofs.Inheriting
import Coupling.Proofs.Mirroring

/-!
# What an analysis by flat names leaves in shared symbols

An analysis by flat names is given the class table of a profiler, and with it the symbols. It reads
them, with one exception: a class that extends another gets the supertype noted in its symbol,
however often it has been noted there before. Which supertypes a tree notes is said without any
reading (`flatSupers`); a reading notes them in order, up to where a fault ends it
(`applyAll_notes`).

So a later inheritance of the profiler is the same for the classes that none of this reaches
(`flat_run_notes_supers`), and not for others.
-/

namespace Coupling.Project

open Java (ParseTree)
open Steps

/-! ## What is noted -/

def Effect.note? : Effect → Option (String × String)
  | .note name super => some (name, super)
  | _ => none

/-- The supertypes that a tree notes, with the flat names of their classes. -/
def flatSupers (t : ParseTree) : List (String × String) := (flatEffects t).filterMap Effect.note?

/-- Notes a supertype of a class of the table. -/
def noteSuper (classes : ClassTable) (r : Registry) (note : String × String) : Registry :=
  (classes.get? note.1).elim r fun id => r.addSuper id note.2

/-- The supertypes that are noted in a symbol. -/
def gained (classes : ClassTable) (notes : List (String × String)) (id : SymbolId) : List String :=
  notes.filterMap fun note => if classes.get? note.1 = some id then some note.2 else none

theorem gained_cons (classes : ClassTable) (note : String × String) (notes : List (String × String))
    (id : SymbolId) :
    gained classes (note :: notes) id =
      (if classes.get? note.1 = some id then [note.2] else []) ++ gained classes notes id := by
  unfold gained
  rw [List.filterMap_cons]
  split <;> simp_all

/-- Noting adds to the supertypes of symbols, and changes nothing else. -/
theorem get?_noteSupers (classes : ClassTable) (notes : List (String × String)) (r : Registry)
    (id : SymbolId) :
    (notes.foldl (noteSuper classes) r).get? id =
      (r.get? id).map fun s => { s with hierarchy := s.hierarchy ++ gained classes notes id } := by
  induction notes generalizing r with
  | nil => cases hs : r.get? id <;> simp [hs, gained]
  | cons note notes ih =>
    rw [List.foldl_cons, ih, noteSuper, gained_cons]
    cases hclass : Table.get? classes note.1 with
    | none => simp
    | some j =>
      rw [Option.elim_some, Registry.addSuper, Registry.get?_change]
      by_cases hj : j = id
      · cases hs : r.get? id <;> simp [hj]
      · simp [hj]

/-- Effects note supertypes in order, all of them or those before a fault. -/
theorem applyAll_notes (classes : ClassTable) (n : Numbering) (xs : List Effect)
    (s : Registry × Matrix) :
    ∃ notes, notes <+: xs.filterMap Effect.note? ∧
      (applyAll classes n xs s).2.1 = notes.foldl (noteSuper classes) s.1 ∧
      ((applyAll classes n xs s).1 = true → notes = xs.filterMap Effect.note?) := by
  induction xs generalizing s with
  | nil => exact ⟨[], List.nil_prefix, rfl, fun _ => rfl⟩
  | cons x xs ih =>
    rw [applyAll]
    cases hx : x.apply classes n s with
    | none => exact ⟨[], List.nil_prefix, rfl, fun h => by cases h⟩
    | some s' =>
      obtain ⟨notes, hprefix, hregistry, hall⟩ := ih s'
      rw [Option.elim_some, hregistry, List.filterMap_cons]
      cases x with
      | note name super =>
        obtain ⟨id, hid, rfl⟩ := Option.map_eq_some_iff.mp hx
        refine ⟨(name, super) :: notes, List.cons_prefix_cons.mpr ⟨rfl, hprefix⟩, ?_,
          fun h => by rw [hall h]; rfl⟩
        rw [List.foldl_cons, noteSuper, hid]
        rfl
      | count source target =>
        refine ⟨notes, hprefix, ?_, hall⟩
        rw [Effect.apply] at hx
        split at hx
        · cases hx
          rfl
        · obtain ⟨m, -, rfl⟩ := Option.map_eq_some_iff.mp hx
          rfl
      | fault => cases hx

/-! ## Runs -/

/-- The supertypes that a file notes. -/
def fileSupers (parse : Parser) (fs : Files) (file : String) : List (String × String) :=
  (fs.read file).toOption.elim [] fun source => flatSupers (parse source).tree

namespace FlatAnalyzer

variable (parse : Parser) (fs : Files)

/-- Files have been analysed: what they share is as it was, but the noted supertypes and what was
printed. If no fault ended a reading and nothing was printed, all supertypes have been noted. -/
structure Noted (files : List String) (s : Scene FlatAnalyzer)
    (out : Except Fault Unit × Scene FlatAnalyzer) (notes : List (List (String × String))) :
    Prop where
  classes : out.2.self.classes = s.self.classes
  tables : out.2.shared.tables = s.shared.tables
  numbering : out.2.shared.numbering = s.shared.numbering
  inOrder : List.Forall₂ (· <+: ·) notes (files.map (fileSupers parse fs))
  registry : out.2.shared.registry = notes.flatten.foldl
    (noteSuper (classTable s)) s.shared.registry
  printed : ∃ words, out.2.shared.printed = s.shared.printed ++ words ∧
    (out.1 = .ok () → words = "" → notes = files.map (fileSupers parse fs))

theorem analyzeFile_notes (file : String) (s : Scene FlatAnalyzer) :
    ∃ part, Noted parse fs [file] s ((analyzeFile parse fs file).run.run s) [part] := by
  unfold analyzeFile
  rw [run_bind, run_liftExcept]
  cases hread : fs.read file with
  | error f =>
    refine ⟨[], rfl, rfl, rfl, .cons List.nil_prefix .nil, rfl, "", by simp, fun h => by cases h⟩
  | ok source =>
    rcases hvisit : (FlatAnalyze.visit (classTable s) s.shared.flatNumbering ""
      (parse source).tree).run.run
      { registry := s.shared.registry, matrix := s.self.matrix } with ⟨result, a⟩
    have heffects := FlatAnalyze.visit_effects (classTable s) s.shared.flatNumbering
      s.shared.registry s.self.matrix
      (parse source).tree
    obtain ⟨notes, hprefix, hregistry, hend⟩ := applyAll_notes (classTable s) s.shared.flatNumbering
      (flatEffects (parse source).tree) (s.shared.registry, s.self.matrix)
    rw [hvisit] at heffects
    rw [← heffects] at hregistry hend
    have hfile : fileSupers parse fs file = flatSupers (parse source).tree := by
      rw [fileSupers, hread]; rfl
    have hparts : List.Forall₂ (· <+: ·) [notes] ([file].map (fileSupers parse fs)) :=
      .cons (by rw [hfile]; exact hprefix) .nil
    have hregistry' : a.registry = [notes].flatten.foldl
        (noteSuper (classTable s)) s.shared.registry := by
      rw [List.flatten_singleton]
      exact hregistry
    refine ⟨notes, ?_⟩
    simp only [Action.parsed, Action.share, run_bind, run_modify, run_pure, run_get, classTable,
      Shared.table] at hvisit ⊢
    simp only [hvisit]
    cases result with
    | ok v =>
      refine ⟨rfl, rfl, rfl, hparts, hregistry', "", by simp, fun _ _ => ?_⟩
      rw [List.map_singleton, hfile, hend rfl]
      rfl
    | error f =>
      refine ⟨rfl, rfl, rfl, hparts, hregistry', _, (String.append_assoc ..), fun _ h => ?_⟩
      simp at h

theorem analyzeFiles_note (files : List String) (s : Scene FlatAnalyzer) :
    ∃ notes, Noted parse fs files s ((files.forM (analyzeFile parse fs)).run.run s) notes := by
  induction files generalizing s with
  | nil => exact ⟨[], rfl, rfl, rfl, .nil, rfl, "", String.append_empty.symm, fun _ _ => rfl⟩
  | cons file files ih =>
    obtain ⟨part, hone⟩ := analyzeFile_notes parse fs file s
    show ∃ notes, Noted parse fs (file :: files) s
      ((analyzeFile parse fs file >>= fun _ => files.forM (analyzeFile parse fs)).run.run s) notes
    rw [run_bind]
    rcases hrun : (analyzeFile parse fs file).run.run s with ⟨_ | ⟨⟩, s₁⟩
    · rw [hrun] at hone
      obtain ⟨words, hwords, -⟩ := hone.printed
      have hpart := (List.forall₂_cons.mp hone.inOrder).1
      refine ⟨part :: files.map fun _ => [], hone.classes, hone.tables, hone.numbering, ?_, ?_,
        words, hwords, fun h => by cases h⟩
      · rw [List.map_cons]
        refine .cons hpart ?_
        rw [List.forall₂_map_left_iff, List.forall₂_map_right_iff, List.forall₂_same]
        exact fun _ _ => List.nil_prefix
      · have hnone : (files.map fun _ => ([] : List (String × String))).flatten = [] := by simp
        rw [List.flatten_cons, hnone, List.append_nil]
        simpa using hone.registry
    · rw [hrun] at hone
      obtain ⟨notes, hrest⟩ := ih s₁
      have hpart := (List.forall₂_cons.mp hone.inOrder).1
      have htable : classTable s₁ = classTable s := by
        rw [classTable, classTable, Shared.table, Shared.table, hone.tables, hone.classes]
      obtain ⟨words, hwords, hall⟩ := hone.printed
      obtain ⟨words', hwords', hall'⟩ := hrest.printed
      refine ⟨part :: notes, hrest.classes.trans hone.classes, hrest.tables.trans hone.tables,
        hrest.numbering.trans hone.numbering, .cons hpart hrest.inOrder, ?_, words ++ words', ?_,
        fun hend hnone => ?_⟩
      · rw [hrest.registry, htable, hone.registry, List.flatten_singleton, List.flatten_cons,
          List.foldl_append]
      · rw [hwords', hwords, String.append_assoc]
      · obtain ⟨hw, hw'⟩ := String.append_eq_empty_iff.mp hnone
        rw [hall' hend hw', List.map_cons, List.singleton_inj.mp (hall rfl hw)]

/-- Numbering the classes and inheriting change neither symbols nor tables. -/
theorem runWith_notes (inherited : Bool) (s : Scene FlatAnalyzer) :
    ∃ notes, Noted parse fs s.self.files s ((runWith parse fs inherited).run.run s) notes := by
  obtain ⟨notes, h⟩ := analyzeFiles_note parse fs s.self.files
    { s with shared := { s.shared with flatNumbering := ⟨(classTable s).keys⟩ } }
  refine ⟨notes, ?_⟩
  unfold runWith Action.self
  simp only [run_bind, run_modify, run_get, run_pure]
  rcases hrun : (s.self.files.forM (analyzeFile parse fs)).run.run
    { s with shared := { s.shared with flatNumbering := ⟨(classTable s).keys⟩ } } with ⟨_ | ⟨⟩, s₂⟩
  · rw [hrun] at h
    exact ⟨h.classes, h.tables, h.numbering, h.inOrder, h.registry, h.printed⟩
  · rw [hrun] at h
    obtain ⟨words, hwords, hall⟩ := h.printed
    cases inherited with
    | false => exact ⟨h.classes, h.tables, h.numbering, h.inOrder, h.registry, words, hwords, hall⟩
    | true =>
      simp only [if_true, run_inheriting]
      exact ⟨h.classes, h.tables, h.numbering, h.inOrder, h.registry, words, hwords,
        fun _ => hall rfl⟩

end FlatAnalyzer

/-! ## Inheriting afterwards -/

/-- Symbols in which nothing is noted, with all that lie below them. -/
structure Apart (classes : ClassTable) (notes : List (String × String))
    (below : SymbolId → List SymbolId) (P : SymbolId → Prop) : Prop where
  ungained : ∀ id, P id → gained classes notes id = []
  closed : ∀ id, P id → ∀ j ∈ below id, P j

/-- The methods of a symbol. -/
def Registry.members (r : Registry) (id : SymbolId) : List SymbolId := (r.methods id).values

/-- The supertypes of a symbol that are in a table. -/
def Registry.parents (r : Registry) (classes : ClassTable) (id : SymbolId) : List SymbolId :=
  (r.hierarchy id).filterMap classes.get?

namespace Apart

variable {classes : ClassTable} {r : Registry} {notes : List (String × String)}
  {below : SymbolId → List SymbolId}
  {P : SymbolId → Prop}

theorem get?_eq (h : Apart classes notes below P) {id : SymbolId} (hid : P id) :
    (notes.foldl (noteSuper classes) r).get? id = r.get? id := by
  rw [get?_noteSupers, h.ungained id hid]
  cases r.get? id <;> simp

theorem record_eq (h : Apart classes notes r.members P) (depth : Nat) {id : SymbolId} (hid : P id) :
    (notes.foldl (noteSuper classes) r).record depth id = r.record depth id := by
  induction depth generalizing id with
  | zero => rfl
  | succ depth ih =>
    rw [Registry.record, Registry.record, h.get?_eq hid]
    cases hs : r.get? id with
    | none => rfl
    | some s =>
      have hmethods : s.methods.values.map ((notes.foldl (noteSuper classes) r).record depth) =
          s.methods.values.map (r.record depth) :=
        List.map_congr_left fun m hm =>
        ih (h.closed id hid m (by rwa [Registry.members, Registry.methods_of_get? hs]))
      simp only [hmethods]

theorem inheritRows_eq (h : Apart classes notes (r.parents classes) P) (n : Numbering) (depth : Nat)
    {id : SymbolId} (hid : P id) :
    inheritRows (notes.foldl (noteSuper classes) r) classes n depth id =
      inheritRows r classes n depth id := by
  induction depth generalizing id with
  | zero => rfl
  | succ depth ih =>
    have hfull : (notes.foldl (noteSuper classes) r).fullName id = r.fullName id := by
      rw [Registry.fullName, Registry.fullName, h.get?_eq hid]
    have hsupers : (notes.foldl (noteSuper classes) r).hierarchy id = r.hierarchy id := by
      rw [Registry.hierarchy, Registry.hierarchy, h.get?_eq hid]
    have hbelow : ∀ super ∈ r.hierarchy id, ∀ j, classes.get? super = some j → P j :=
      fun super hsuper j hj => h.closed id hid j (List.mem_filterMap.mpr ⟨super, hsuper, hj⟩)
    rw [inheritRows, inheritRows, hfull, hsupers]
    cases hlist : r.hierarchy id with
    | nil => rfl
    | cons super supers =>
      rw [hlist] at hbelow
      simp only
      congr 1
      refine forM_congr_left fun super hsuper => ?_
      congr 1
      funext row
      unfold lookUp
      cases hj : Table.get? classes super with
      | none => rfl
      | some j =>
        show (pure j >>= _ : Inherit Unit) = pure j >>= _
        rw [pure_bind, pure_bind, ih (hbelow super hsuper j hj)]

end Apart

/-- **An analysis by flat names changes nothing of a profiler but the supertypes of its classes.**
Take any profiler, in particular one that has made a profile, and any files, and analyse them by
flat names with the class table of the profiler, whether or not a fault ends the analysis. The table
and the numbering of the profiler stay, and so do all symbols, except that classes get supertypes
noted: for each file those that its tree notes, in order, up to a fault, and all of them if there
was none and nothing was printed. The records of symbols that have none, in themselves or in their
methods, are the same, and so are later inheritances of classes that have none, in themselves or in
their supertypes. -/
theorem flat_run_notes_supers (parse : Parser) (fs : Files) (p : Scene Profiler)
    (files : List String) (inherited : Bool) :
    let out := (FlatAnalyzer.runWith parse fs inherited).run.run
      ⟨.new files p.self.classes p.shared, p.shared⟩
    ∃ notes words, out.2.shared.printed = p.shared.printed ++ words ∧
      List.Forall₂ (· <+: ·) notes (files.map (fileSupers parse fs)) ∧
      (out.1 = .ok () → words = "" → notes = files.map (fileSupers parse fs)) ∧
      out.2.shared.tables = p.shared.tables ∧ out.2.shared.numbering = p.shared.numbering ∧
      (∀ id, out.2.shared.registry.get? id = (p.shared.registry.get? id).map fun s =>
        { s with hierarchy := s.hierarchy ++ gained (Profiler.classTable p) notes.flatten id }) ∧
      (∀ P, Apart (Profiler.classTable p) notes.flatten p.shared.registry.members P →
        ∀ depth id, P id → out.2.shared.registry.record depth id =
          p.shared.registry.record depth id) ∧
      ∀ P, Apart (Profiler.classTable p) notes.flatten
        (p.shared.registry.parents (Profiler.classTable p)) P →
        ∀ name, (∀ id, (Profiler.classTable p).get? name = some id → P id) →
          (Profiler.inheritClass name).run.run ⟨p.self, out.2.shared⟩ =
            let before := (Profiler.inheritClass name).run.run p
            (before.1, ⟨before.2.self, out.2.shared⟩) := by
  intro out
  obtain ⟨notes, h⟩ := FlatAnalyzer.runWith_notes parse fs inherited
    ⟨.new files p.self.classes p.shared, p.shared⟩
  obtain ⟨words, hwords, hall⟩ := h.printed
  have hregistry : out.2.shared.registry =
      notes.flatten.foldl (noteSuper (Profiler.classTable p)) p.shared.registry := h.registry
  refine ⟨notes, words, hwords, h.inOrder, hall, h.tables, h.numbering, fun id => ?_,
    fun P hP depth id hid => ?_, fun P hP name hname => ?_⟩
  · rw [hregistry, get?_noteSupers]
  · rw [hregistry, hP.record_eq depth hid]
  · have htable : Profiler.classTable ⟨p.self, out.2.shared⟩ = Profiler.classTable p := by
      rw [Profiler.classTable, Profiler.classTable, Shared.table, Shared.table,
        show out.2.shared.tables = _ from h.tables]
    rw [Profiler.run_inheritClass, Profiler.run_inheritClass, htable]
    cases hid : (Profiler.classTable p).get? name with
    | none => rfl
    | some id =>
      simp only [hregistry, show out.2.shared.numbering = _ from h.numbering, inheritFor,
        hP.inheritRows_eq _ _ (hname id hid)]

open Profiler (branch named classNamed fieldOf parserOf after opened inheritClass)

/-- A class that extends another, which has a field of a third class. -/
def extendedParser : Parser :=
  parserOf [("A", branch .compilationUnit
    [classExtending "A" "B" [], classNamed (named "B") [fieldOf "C"], classNamed (named "C") []])]

def extendedFiles : Files := ⟨[(["A.java"], .text "A")]⟩

/-- A profiler that has made its profile. -/
def extendedScene : Scene Profiler := after extendedParser [.profile extendedFiles false]
    (opened ["A.java"] {})

/-- What an analysis of the same file by flat names leaves. -/
def extendedShared : Shared :=
  ((FlatAnalyzer.runWith extendedParser extendedFiles false).run.run
    ⟨.new ["A.java"] extendedScene.self.classes extendedScene.shared,
      extendedScene.shared⟩).2.shared

/-- Nothing is noted in the class that is extended: its record stays, and it inherits as before. -/
theorem extended_class_untouched :
    (∀ id, (Profiler.classTable extendedScene).get? "B" = some id → ∀ depth,
      extendedShared.registry.record depth id = extendedScene.shared.registry.record depth id) ∧
    ((inheritClass "B").run.run ⟨extendedScene.self, extendedShared⟩).2.self.matrix =
      ((inheritClass "B").run.run extendedScene).2.self.matrix := by
  obtain ⟨notes, words, hwords, -, hall, -, -, -, hrecords, hinherits⟩ :=
    flat_run_notes_supers extendedParser extendedFiles extendedScene ["A.java"] false
  obtain rfl : words = "" := by
    have hsilent : extendedShared.printed = extendedScene.shared.printed := by decide +kernel
    exact (String.append_right_inj _).mp
      ((hwords.symm.trans hsilent).trans String.append_empty.symm)
  have hnotes : notes.flatten = [("A", "B")] := by
    rw [hall (by decide +kernel) rfl]
    decide +kernel
  rw [hnotes] at hrecords hinherits
  have hB : ∀ id, (Profiler.classTable extendedScene).get? "B" = some id → id ∈ [4] := by
    decide +kernel
  refine ⟨fun id hid depth => hrecords (· ∈ [4]) ⟨by decide +kernel, by decide +kernel⟩ depth id
    (hB id hid), ?_⟩
  rw [← extendedShared] at hinherits
  rw [hinherits (· ∈ [4]) ⟨by decide +kernel, by decide +kernel⟩ "B" hB]

/-- **An analysis by flat names does not only read.** The supertype that the profile has noted is
noted once more, and a later inheritance adds its interactions twice. -/
theorem flat_run_notes_again :
    ((Profiler.classTable extendedScene).get? "A").map extendedScene.shared.registry.hierarchy =
      some ["B"] ∧
      ((Profiler.classTable extendedScene).get? "A").map extendedShared.registry.hierarchy =
        some ["B", "B"] ∧
      cell extendedScene.shared.numbering ((inheritClass "A").run.run extendedScene).2.self.matrix
        "A" "C" = some 1 ∧
      cell extendedScene.shared.numbering
        ((inheritClass "A").run.run ⟨extendedScene.self, extendedShared⟩).2.self.matrix
        "A" "C" = some 2 := by
  decide +kernel

end Coupling.Project
