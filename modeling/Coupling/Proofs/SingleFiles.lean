import Coupling.Proofs.Placing
import Coupling.Proofs.Projects

/-!
# One file at a time

What a profiler does with one file, said as an equation: when the file is collected
(`run_collectFile`), when it is analysed (`run_analyzeFile`), and in a profile (`run_profile`). What
is printed on the way makes no difference to anything else; `bare` leaves it out. Whether a file can
be collected depends on the file alone (`collects`).
-/

namespace Coupling.Project.Profiler

open Java (ParseTree)
open Steps

variable {parse : Parser} {fs : Files} {s s' t t' : Scene Profiler}

/-! ## Single files -/

/-- A project after the parser has complained about a source. -/
def heard (parse : Parser) (source : String) (s : Scene Profiler) : Scene Profiler :=
  let words := String.join ((parse source).complaints.map fun c => "line " ++ c.render ++ "\n")
  { s with shared := { s.shared with complained := s.shared.complained ++ words } }

/-- A project after a line was printed. -/
def said (line : String) (s : Scene Profiler) : Scene Profiler :=
  { s with shared := { s.shared with printed := s.shared.printed ++ line ++ "\n" } }

/-- A project after the outcome of a reading was reported. -/
def reported (file : String) (result : Except Fault Unit) (s : Scene Profiler) : Scene Profiler :=
  match result with
  | .ok _ => s
  | .error f => said ("[JavaStaticProfiler::analyze_structure] analyzing " ++ file ++
    " occurs error: " ++ f.message) s

theorem run_collectFile (parse : Parser) (fs : Files) (file : String) (s : Scene Profiler) :
    (collectFile parse fs file).run.run s =
      match fs.read file with
      | .error f => (.error f, s)
      | .ok source => (.ok (),
        match collect s.shared.registry file source (parse source).tree with
        | .ok c => absorb file c (heard parse source s)
        | .error f => said ("[JavaStaticProfiler::collect_class_stats] analyzing " ++ file ++
            " occurs error: " ++
            f.message) (heard parse source s)) := by
  unfold collectFile
  rw [run_bind, run_liftExcept]
  cases fs.read file with
  | error f => rfl
  | ok source =>
    have hparsed : (Action.parsed parse source).run.run s =
      (.ok (parse source).tree, heard parse source s) := rfl
    have hregistry : (heard parse source s).shared.registry = s.shared.registry := rfl
    simp only [run_bind, hparsed, Action.shared, bind_assoc, pure_bind, run_get, hregistry]
    cases collect s.shared.registry file source (parse source).tree <;> rfl

theorem run_analyzeFile (parse : Parser) (fs : Files) (file : String) (s : Scene Profiler) :
    (analyzeFile parse fs file).run.run s =
      match s.self.full.get? file with
      | none => (.error (.noKey file), s)
      | some full =>
        match fs.read file with
        | .error f => (.error f, s)
        | .ok source =>
          let out := (Analyze.visit (setting file source full s) {} (parse source).tree).run.run
            (analysis s)
          (.ok (), reported file out.1 (adopt out.2 (heard parse source s))) := by
  unfold analyzeFile Action.self lookUp
  simp only [bind_assoc, pure_bind, run_bind, run_get, run_liftExcept]
  cases s.self.full.get? file with
  | none => rfl
  | some full =>
    cases fs.read file with
    | error f => rfl
    | ok source =>
      have hparsed : (Action.parsed parse source).run.run s =
        (.ok (parse source).tree, heard parse source s) := rfl
      have hsetting : setting file source full (heard parse source s) =
        setting file source full s := rfl
      have hanalysis : analysis (heard parse source s) = analysis s := rfl
      simp only [hparsed, hsetting, hanalysis]
      rcases (Analyze.visit (setting file source full s) {} (parse source).tree).run.run
        (analysis s) with ⟨_ | _, a⟩ <;>
        rfl

/-! ## What is known of a project -/

/-- A project without the files it is asked about and without the texts that were printed. -/
def bare (s : Scene Profiler) : Scene Profiler :=
  ⟨{ s.self with files := [] }, { s.shared with printed := "", complained := "" }⟩

theorem classTable_bare (s : Scene Profiler) : classTable (bare s) = classTable s := rfl

theorem setting_bare (file source : String) (full : Table String) (s : Scene Profiler) :
    setting file source full (bare s) = setting file source full s := rfl

theorem analysis_bare (s : Scene Profiler) : analysis (bare s) = analysis s := rfl

theorem bare_number (s : Scene Profiler) : bare (number s) = number (bare s) := rfl

theorem bare_reported (file : String) (result : Except Fault Unit) (s : Scene Profiler) :
    bare (reported file result s) = bare s := by
  cases result <;> rfl

/-- Whether the declarations of a file can be collected. -/
def collects (parse : Parser) (fs : Files) (file : String) : Bool :=
  match fs.read file with
  | .error _ => false
  | .ok source => (collect .empty file source (parse source).tree).toBool

theorem collect_toBool (registry : Registry) (file source : String) (tree : ParseTree) :
    (collect registry file source tree).toBool = (collect .empty file source tree).toBool := by
  rw [collect_onto]
  cases collect .empty file source tree <;> rfl

variable {file source : String}

theorem exists_collect (h : collects parse fs file = true) (hread : fs.read file = .ok source)
    (registry : Registry) :
    ∃ c, collect registry file source (parse source).tree = .ok c := by
  rw [collects, hread] at h
  simp only [← collect_toBool registry] at h
  cases hc : collect registry file source (parse source).tree with
  | error f =>
    rw [hc] at h
    cases h
  | ok c => exact ⟨c, rfl⟩

theorem exists_fault (h : collects parse fs file = false) (hread : fs.read file = .ok source)
    (registry : Registry) :
    ∃ f, collect registry file source (parse source).tree = .error f := by
  rw [collects, hread] at h
  simp only [← collect_toBool registry] at h
  cases hc : collect registry file source (parse source).tree with
  | error f => exact ⟨f, rfl⟩
  | ok c =>
    rw [hc] at h
    cases h

/-- A file that can be collected leads projects that agree to projects that agree. -/
theorem collectFile_agrees (hcollects : collects parse fs file = true)
    (hread : fs.read file = .ok source) (h : bare s = bare t) :
    ∃ s' t', (collectFile parse fs file).run.run s = (.ok (), s') ∧
      (collectFile parse fs file).run.run t = (.ok (), t') ∧ bare s' = bare t' := by
  have hregistry : s.shared.registry = t.shared.registry := congrArg (·.shared.registry) h
  obtain ⟨c, hc⟩ := exists_collect hcollects hread s.shared.registry
  refine ⟨absorb file c (heard parse source s), absorb file c (heard parse source t), ?_, ?_, ?_⟩
  · simp only [run_collectFile, hread, hc]
  · simp only [run_collectFile, hread, ← hregistry, hc]
  · exact congrArg (absorb file c) h

/-- A file that cannot be collected changes nothing. -/
theorem collectFile_passes (hcollects : collects parse fs file = false)
    (hread : fs.read file = .ok source)
    (s : Scene Profiler) : ∃ s', (collectFile parse fs file).run.run s = (.ok (), s') ∧
    bare s' = bare s := by
  obtain ⟨f, hf⟩ := exists_fault hcollects hread s.shared.registry
  have hrun := run_collectFile parse fs file s
  simp only [hread, hf] at hrun
  exact ⟨_, hrun, rfl⟩

/-- The collections that succeed are those of the files that can be collected. -/
theorem files_collections {files : List String}
    (hread : ∀ file ∈ files, ∃ source, fs.read file = .ok source)
    (registry : Registry) :
    (collections parse fs files registry).map (·.file) = files.filter (collects parse fs) := by
  induction files generalizing registry with
  | nil => rfl
  | cons file files ih =>
    obtain ⟨source, hsource⟩ := hread file List.mem_cons_self
    have hrest := fun file' h' => hread file' (List.mem_cons_of_mem _ h')
    simp only [collections, hsource]
    cases hcollects : collects parse fs file with
    | true =>
      obtain ⟨c, hc⟩ := exists_collect hcollects hsource registry
      simp only [hc, List.map_cons, List.filter_cons_of_pos hcollects, ih hrest]
    | false =>
      obtain ⟨f, hf⟩ := exists_fault hcollects hsource registry
      have hneg : ¬ collects parse fs file = true := by rw [hcollects]; exact Bool.false_ne_true
      simp only [hf, List.filter_cons_of_neg hneg, ih hrest]

/-- An analysis of a file whose names are known comes to its end and leaves them. -/
theorem analyzeFile_ends (hfull : s.self.full.contains file = true)
    (hread : fs.read file = .ok source) :
    ∃ s', (analyzeFile parse fs file).run.run s = (.ok (), s') ∧ s'.self.full = s.self.full := by
  obtain ⟨full, hget⟩ := Table.contains_iff_exists.mp hfull
  have hrun := run_analyzeFile parse fs file s
  simp only [hget, hread] at hrun
  refine ⟨_, hrun, ?_⟩
  rcases (Analyze.visit (setting file source full s) {} (parse source).tree).run.run (analysis s)
    with ⟨_ | _, a⟩ <;> rfl

/-- Projects that agree are analysed alike. -/
theorem analyzeFile_agrees (file : String) (h : bare s = bare t) :
    ((analyzeFile parse fs file).run.run s).1 = ((analyzeFile parse fs file).run.run t).1 ∧
      bare ((analyzeFile parse fs file).run.run s).2 =
        bare ((analyzeFile parse fs file).run.run t).2 := by
  have hfull : s.self.full = t.self.full := congrArg (·.self.full) h
  rw [run_analyzeFile, run_analyzeFile, hfull]
  cases t.self.full.get? file with
  | none => exact ⟨rfl, h⟩
  | some full =>
    cases fs.read file with
    | error f => exact ⟨rfl, h⟩
    | ok source =>
      have hsetting : setting file source full (bare s) = setting file source full (bare t) := by
        rw [h]
      have hanalysis : analysis (bare s) = analysis (bare t) := by rw [h]
      rw [setting_bare, setting_bare] at hsetting
      rw [analysis_bare, analysis_bare] at hanalysis
      refine ⟨rfl, ?_⟩
      simp only [bare_reported, hsetting, hanalysis]
      exact congrArg (adopt _) h

/-- A profile collects the files, numbers the classes and analyses the files. -/
theorem run_profile (h : (s.self.files.forM (collectFile parse fs)).run.run s = (.ok (), s')) :
    (profile parse fs false).run.run s = (s'.self.files.forM (analyzeFile parse fs)).run.run
      (number s') := by
  have hcollect : (collectAll parse fs).run.run s = (.ok (), number s') := by
    unfold collectAll Action.self
    simp only [bind_assoc, pure_bind, run_bind, run_get, h, run_modify]
  unfold profile analyzeAll Action.self
  have hfiles : (number s').self.files = s'.self.files := rfl
  simp only [bind_assoc, pure_bind, run_bind, hcollect, run_get, hfiles]
  rcases (s'.self.files.forM (analyzeFile parse fs)).run.run (number s') with ⟨_ | ⟨⟩, s''⟩ <;> rfl

end Coupling.Project.Profiler
