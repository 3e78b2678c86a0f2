import Coupling.Proofs.Mirroring

/-!
# Readings that a fault ends

A collection that a fault ends adds nothing to a project. A reading of the references of a file is
not like that: it notes and counts while it goes through the tree, and a fault leaves what was done
until then. What is left is exactly what the requests before the refused one have done
(`failed_reading_keeps_prefix`), so nothing is left just if none of them notes or counts anything.
-/

namespace Coupling.Project

namespace Profiler

open Steps

variable {parse : Parser} {fs : Files}

/-- Nothing that was counted or noted has changed: neither the count of two names, nor what a symbol
that was there inherits from or depends on. -/
structure Untouched (s s' : Scene Profiler) : Prop where
  counts : ∀ p q, cell s.shared.numbering s'.self.matrix p q =
    cell s.shared.numbering s.self.matrix p q
  hierarchy : ∀ id < s.shared.registry.size, s'.shared.registry.hierarchy id =
    s.shared.registry.hierarchy id
  dependency : ∀ id < s.shared.registry.size, s'.shared.registry.dependency id =
    s.shared.registry.dependency id

/-- Requests leave nothing just if they add to no list of a symbol that was there, and to no count
(counts wrap around). -/
theorem untouched_iff {s s' : Scene Profiler} {done : List Request}
    (h : Performed (classTable s) s.shared.numbering done (analysis s) (analysis s')) :
    Untouched s s' ↔
      (∀ id < s.shared.registry.size, done.filterMap (·.super? (classTable s) id) = [] ∧
        done.filterMap (·.dependency? (classTable s) s.self.symbols id) = []) ∧
      ∀ p q, (cell s.shared.numbering s.self.matrix p q).isSome = true →
      Int64.ofNat (tally (classTable s) p q done) = 0 := by
  have hsuper (id : SymbolId) (hid : id < s.shared.registry.size) :
      s'.shared.registry.hierarchy id =
        s.shared.registry.hierarchy id ++ done.filterMap (·.super? (classTable s) id) :=
    h.hierarchy id hid
  have hdepend (id : SymbolId) (hid : id < s.shared.registry.size) :
      s'.shared.registry.dependency id = s.shared.registry.dependency id ++
        done.filterMap (·.dependency? (classTable s) s.self.symbols id) :=
    h.dependency id hid
  have hcount (p q : String) : cell s.shared.numbering s'.self.matrix p q =
      (cell s.shared.numbering s.self.matrix p q).map
        (· + Int64.ofNat (tally (classTable s) p q done)) := h.counts p q
  constructor
  · intro same
    refine ⟨fun id hid => ⟨?_, ?_⟩, fun p q hsome => ?_⟩
    · exact List.append_right_eq_self.mp ((hsuper id hid).symm.trans (same.hierarchy id hid))
    · exact List.append_right_eq_self.mp ((hdepend id hid).symm.trans (same.dependency id hid))
    · obtain ⟨count, hc⟩ := Option.isSome_iff_exists.mp hsome
      have heq : some (count + Int64.ofNat (tally (classTable s) p q done)) = some count := by
        rw [← hc, ← same.counts p q, hcount p q, hc]
        rfl
      simpa using heq
  · rintro ⟨hlists, hcounts⟩
    refine ⟨fun p q => ?_, fun id hid => ?_, fun id hid => ?_⟩
    · rw [hcount p q]
      cases hc : cell s.shared.numbering s.self.matrix p q with
      | none => rfl
      | some count =>
        rw [Option.map_some, hcounts p q (by rw [hc]; rfl), Int64.add_zero]
    · rw [hsuper id hid, (hlists id hid).1, List.append_nil]
    · rw [hdepend id hid, (hlists id hid).2, List.append_nil]

/-- **What a failed analysis leaves.** Take any run of a profiler and any file whose names are
known, and let a fault end the reading of its tree. The fault is caught and printed; the requests of
the file are some that were granted, one that was refused, and the rest, and what is left is exactly
what the granted ones have done: each symbol has come to inherit from and to depend on what they
note on it, and each count has grown by the interactions they count. So the project is untouched
just if they note nothing on a symbol that was there and count nothing. -/
theorem failed_reading_keeps_prefix (parse : Parser) (files : List String) (shared : Shared)
    (calls : List Call)
    (fs : Files) (file source : String) (full : Table String) (fault : Fault) (s : Scene Profiler)
    (hs : s = after parse calls (opened files shared)) (hfull : s.self.full.get? file = some full)
    (hread : fs.read file = .ok source)
    (hfault : ((Analyze.visit (setting file source full s) {} (parse source).tree).run.run
      (analysis s)).1 =
      .error fault) :
    ∃ done refused rest s', script full {} (parse source).tree = done ++ refused :: rest ∧
      Analyze.grant (setting file source full s) (analysis s') refused = .error fault ∧
      (analyzeFile parse fs file).run.run s = (.ok (), s') ∧
      s'.shared.printed = s.shared.printed ++
        ("[JavaStaticProfiler::analyze_structure] analyzing " ++ file ++
        " occurs error: " ++ fault.message) ++ "\n" ∧
      Performed (classTable s) s.shared.numbering done (analysis s) (analysis s') ∧
      (Untouched s s' ↔
        (∀ id < s.shared.registry.size, done.filterMap (·.super? (classTable s) id) = [] ∧
          done.filterMap (·.dependency? (classTable s) s.self.symbols id) = []) ∧
        ∀ p q, (cell s.shared.numbering s.self.matrix p q).isSome = true →
          Int64.ofNat (tally (classTable s) p q done) = 0) := by
  have hconsistent : Analyze.Consistent (setting file source full s) (analysis s) := by
    rw [hs]
    exact (lasting_sound.after calls (sound_opened files shared)).consistent file source full
  have hrun := run_analyzeFile parse fs file s
  simp only [hfull, hread] at hrun
  rcases hout : (Analyze.visit (setting file source full s) {} (parse source).tree).run.run
    (analysis s) with ⟨result, a⟩
  rw [hout] at hrun hfault
  cases hfault
  rw [hconsistent.visit_eq] at hout
  obtain ⟨done, refused, rest, hscript, hdone, hrefused⟩ := Analyze.carryOut_refused hout
  refine ⟨done, refused, rest, _, hscript, ?_, hrun, rfl, hdone, untouched_iff hdone⟩
  exact hrefused

/-- A file with a class that extends another and has a field of it, and then a field of a class that
is not known. -/
def unknownFieldParser : Parser :=
  parserOf [("A", branch .compilationUnit
    [branch .classDeclaration [leaf .kwClass "class", named "A", leaf .kwExtends "extends",
      branch .typeType [named "B"], branch .classBody [fieldOf "B", fieldOf "X"]],
    classNamed (named "B") []])]

def unknownFieldFiles : Files := ⟨[(["A.java"], .text "A")]⟩

/-- The project after the file was collected. -/
def unknownFieldScene : Scene Profiler := after unknownFieldParser [.collect unknownFieldFiles]
    (opened ["A.java"] {})

/-- What the simple names of the file stand for. -/
def unknownFieldFull : Table String := (unknownFieldScene.self.full.get? "A.java").getD ∅

/-- The analysis of the file. -/
def unknownFieldRun : Except Fault Unit × Scene Profiler :=
  (analyzeFile unknownFieldParser unknownFieldFiles "A.java").run.run unknownFieldScene

/-- The unknown class ends the reading, after what the requests before it have done. -/
theorem unknownField_keeps_prefix :
    unknownFieldScene.self.full.get? "A.java" = some unknownFieldFull ∧
    unknownFieldFiles.read "A.java" = .ok "A" ∧
    ∃ done refused rest, script unknownFieldFull {} (unknownFieldParser "A").tree = done ++
      refused :: rest ∧
      Performed (classTable unknownFieldScene) unknownFieldScene.shared.numbering done
        (analysis unknownFieldScene)
        (analysis unknownFieldRun.2) := by
  have hknown : (unknownFieldScene.self.full.get? "A.java").isSome = true := by decide +kernel
  have hfull : unknownFieldScene.self.full.get? "A.java" = some unknownFieldFull := by
    obtain ⟨full, hget⟩ := Option.isSome_iff_exists.mp hknown
    rw [unknownFieldFull, hget]
    rfl
  have hread : unknownFieldFiles.read "A.java" = .ok "A" := by decide +kernel
  have hfault : ((Analyze.visit (setting "A.java" "A" unknownFieldFull unknownFieldScene) {}
      (unknownFieldParser "A").tree).run.run (analysis unknownFieldScene)).1 =
        .error (.unknownDependency "X") := by
    decide +kernel
  obtain ⟨done, refused, rest, s', hscript, -, hrun, -, hdone, -⟩ :=
    failed_reading_keeps_prefix unknownFieldParser
    ["A.java"] {} [.collect unknownFieldFiles] unknownFieldFiles "A.java" "A" unknownFieldFull
      (.unknownDependency "X")
    unknownFieldScene rfl hfull hread hfault
  refine ⟨hfull, hread, done, refused, rest, hscript, ?_⟩
  rw [unknownFieldRun, hrun]
  exact hdone

/-- A failed analysis leaves traces: before it nothing is counted, inherited or depended on, and
after it one interaction was counted twice, and a supertype and two dependencies were noted. -/
theorem failed_reading_leaves_traces :
    cell unknownFieldScene.shared.numbering unknownFieldScene.self.matrix "A" "B" = some 0 ∧
    ((classTable unknownFieldScene).get? "A").map unknownFieldScene.shared.registry.hierarchy =
      some [] ∧
    ((classTable unknownFieldScene).get? "A").map unknownFieldScene.shared.registry.dependency =
      some [] ∧
    unknownFieldRun.1.toBool = true ∧
    unknownFieldRun.2.shared.printed =
      "[JavaStaticProfiler::analyze_structure] analyzing A.java occurs error: " ++
        "Dependency X not found\n" ∧
    cell unknownFieldRun.2.shared.numbering unknownFieldRun.2.self.matrix "A" "B" = some 2 ∧
    ((classTable unknownFieldRun.2).get? "A").map unknownFieldRun.2.shared.registry.hierarchy =
      some ["B"] ∧
    ((classTable unknownFieldRun.2).get? "A").map unknownFieldRun.2.shared.registry.dependency =
      some ["B", "B"] := by
  decide +kernel

end Profiler

end Coupling.Project
