import Coupling.Proofs.SingleFiles

/-!
# Files that cannot be collected

A file whose declarations cannot be collected adds nothing to the tables of a project, and the next
file is collected. The analysis that follows asks for what the names of each file stand for, and for
such a file there is no answer: it ends there, with a fault that nothing catches. So a profile comes
to its end just if every file can be collected (`profile_ends_at_uncollected`); if one cannot, the
classes are those of the other files, but only the files before it have been analysed.
-/

namespace Coupling.Project.Profiler

open Steps

variable {parse : Parser} {fs : Files} {s s' t t' : Scene Profiler}

/-- Collecting files is collecting those that can be collected. -/
theorem collectFiles_filter (files : List String)
    (hread : ∀ file ∈ files, ∃ source, fs.read file = .ok source) (h : bare s = bare t) :
    ∃ s' t', (files.forM (collectFile parse fs)).run.run s = (.ok (), s') ∧
      ((files.filter (collects parse fs)).forM (collectFile parse fs)).run.run t = (.ok (), t') ∧
      bare s' = bare t' := by
  induction files generalizing s t with
  | nil => exact ⟨s, t, rfl, rfl, h⟩
  | cons file files ih =>
    obtain ⟨source, hsource⟩ := hread file List.mem_cons_self
    have hrest := fun file' h' => hread file' (List.mem_cons_of_mem _ h')
    cases hcollects : collects parse fs file with
    | true =>
      obtain ⟨s₁, t₁, hs₁, ht₁, h₁⟩ := collectFile_agrees hcollects hsource h
      obtain ⟨s', t', hs', ht', h'⟩ := ih hrest h₁
      rw [List.filter_cons_of_pos hcollects]
      exact ⟨s', t', forM_cons_eq_ok.mpr ⟨s₁, hs₁, hs'⟩, forM_cons_eq_ok.mpr ⟨t₁, ht₁, ht'⟩, h'⟩
    | false =>
      obtain ⟨s₁, hs₁, h₁⟩ := collectFile_passes hcollects hsource s
      obtain ⟨s', t', hs', ht', h'⟩ := ih hrest (h₁.trans h)
      rw [List.filter_cons_of_neg (by rw [hcollects]; exact Bool.false_ne_true)]
      exact ⟨s', t', forM_cons_eq_ok.mpr ⟨s₁, hs₁, hs'⟩, ht', h'⟩

/-! ## Analysing what was collected -/

/-- What comes of a profile: the first file that cannot be collected ends it. -/
def outcome (parse : Parser) (fs : Files) (files : List String) : Except Fault Unit :=
  match files.find? fun file => !collects parse fs file with
  | none => .ok ()
  | some file => .error (.noKey file)

theorem outcome_eq_ok {files : List String} :
    outcome parse fs files = .ok () ↔ ∀ file ∈ files, collects parse fs file = true := by
  unfold outcome
  cases hfind : files.find? fun file => !collects parse fs file with
  | none => simpa using hfind
  | some file =>
    have hbad := List.find?_some hfind
    have hmem := List.mem_of_find?_eq_some hfind
    simp only [reduceCtorEq, false_iff, not_forall]
    exact ⟨file, hmem, by simpa using hbad⟩

/-- Files are analysed up to the first whose names are not known. -/
theorem analyzeFiles_until (files : List String)
    (hread : ∀ file ∈ files, ∃ source, fs.read file = .ok source)
    (hfull : ∀ file ∈ files, s.self.full.contains file = collects parse fs file) :
    ∃ s', ((files.takeWhile (collects parse fs)).forM (analyzeFile parse fs)).run.run s =
      (.ok (), s') ∧
      (files.forM (analyzeFile parse fs)).run.run s = (outcome parse fs files, s') := by
  induction files generalizing s with
  | nil => exact ⟨s, rfl, rfl⟩
  | cons file files ih =>
    obtain ⟨source, hsource⟩ := hread file List.mem_cons_self
    have hknown := hfull file List.mem_cons_self
    cases hcollects : collects parse fs file with
    | true =>
      rw [hcollects] at hknown
      obtain ⟨s₁, hrun, hsame⟩ := analyzeFile_ends hknown hsource
      rw [← hsame] at hfull
      obtain ⟨s', htake, hall⟩ := ih (fun file' h' => hread file' (List.mem_cons_of_mem _ h'))
        fun file' h' => hfull file' (List.mem_cons_of_mem _ h')
      refine ⟨s', ?_, ?_⟩
      · rw [List.takeWhile_cons_of_pos hcollects]
        exact forM_cons_eq_ok.mpr ⟨s₁, hrun, htake⟩
      · show (analyzeFile parse fs file >>= fun _ =>
          files.forM (analyzeFile parse fs)).run.run s = _
        rw [run_bind, hrun]
        simp only [hall, outcome, List.find?_cons, hcollects, Bool.not_true]
    | false =>
      rw [hcollects, Table.contains, Option.isSome_eq_false_iff, Option.isNone_iff_eq_none]
        at hknown
      have hrun := run_analyzeFile parse fs file s
      simp only [hknown] at hrun
      refine ⟨s, ?_, ?_⟩
      · rw [List.takeWhile_cons_of_neg (by rw [hcollects]; exact Bool.false_ne_true)]
        rfl
      · show (analyzeFile parse fs file >>= fun _ =>
          files.forM (analyzeFile parse fs)).run.run s = _
        rw [run_bind, hrun]
        simp only [outcome, List.find?_cons, hcollects, Bool.not_false]

/-- Projects that agree are analysed alike, file after file. -/
theorem analyzeFiles_agree (files : List String) (h : bare s = bare t)
    (hs : (files.forM (analyzeFile parse fs)).run.run s = (.ok (), s')) :
    ∃ t', (files.forM (analyzeFile parse fs)).run.run t = (.ok (), t') ∧ bare s' = bare t' := by
  induction files generalizing s t with
  | nil =>
    rw [forM_nil_eq_ok] at hs
    subst hs
    exact ⟨t, rfl, h⟩
  | cons file files ih =>
    obtain ⟨s₁, hs₁, hs'⟩ := forM_cons_eq_ok.mp hs
    rcases ht₁ : (analyzeFile parse fs file).run.run t with ⟨r, t₁⟩
    obtain ⟨hsame, h₁⟩ := ht₁ ▸ hs₁ ▸ analyzeFile_agrees file h
    obtain ⟨t', ht', h'⟩ := ih h₁ hs'
    subst hsame
    exact ⟨t', forM_cons_eq_ok.mpr ⟨t₁, ht₁, ht'⟩, h'⟩

/-- After the collection, the names of a file are known if it could be collected. -/
theorem contains_full {files : List String} {shared : Shared}
    (hread : ∀ file ∈ files, ∃ source, fs.read file = .ok source)
    (h : (files.forM (collectFile parse fs)).run.run (opened files shared) = (.ok (), s)) :
    ∀ file ∈ files, s.self.full.contains file = collects parse fs file := by
  intro file hfile
  have hfull := (collectFiles_gathered files (sound_opened files shared).own h).full
  have hnone : ¬ (opened files shared).self.full.contains file = true := Bool.false_ne_true
  rw [Bool.eq_iff_iff, hfull, Table.contains_update, List.map_map, or_iff_left hnone]
  show file ∈ (collections parse fs files _).map (·.file) ↔ _
  rw [files_collections hread, List.mem_filter, and_iff_right hfile]

/-- **What a file that cannot be collected does to a project.** Let all files be readable. A profile
of them ends with the fault that the first file which cannot be collected has no names (`outcome`),
and so it comes to its end just if every file can be collected. However it ends, the classes and
their numbers are those of a profile of the files that can be collected, which does come to its end.
But what is known beyond that is what an analysis of the files before the first that cannot be
collected has found: the same as in the other profile if no file that can be collected stands after
one that cannot. -/
theorem profile_ends_at_uncollected (parse : Parser) (fs : Files) (files : List String)
    (shared : Shared) (hread : ∀ file ∈ files, ∃ source, fs.read file = .ok source) :
    ∃ s t collected analysed,
      (profile parse fs false).run.run (opened files shared) = (outcome parse fs files, s) ∧
      (outcome parse fs files = .ok () ↔ ∀ file ∈ files, collects parse fs file = true) ∧
      (profile parse fs false).run.run (opened (files.filter (collects parse fs)) shared) =
        (.ok (), t) ∧
      classTable s = classTable t ∧ s.shared.numbering = t.shared.numbering ∧
      (collectAll parse fs).run.run (opened (files.filter (collects parse fs)) shared) =
        (.ok (), collected) ∧
      ((files.takeWhile (collects parse fs)).forM (analyzeFile parse fs)).run.run collected =
        (.ok (), analysed) ∧
      bare s = bare analysed ∧
      (files.takeWhile (collects parse fs) = files.filter (collects parse fs) →
        bare s = bare t) := by
  let good := files.filter (collects parse fs)
  have hgood : ∀ file ∈ good, ∃ source, fs.read file = .ok source :=
    fun file h => hread file (List.mem_of_mem_filter h)
  have hall : ∀ file ∈ good, collects parse fs file = true := fun file h => (List.mem_filter.mp h).2
  obtain ⟨s₀, t₀, hs₀, ht₀, h₀⟩ := collectFiles_filter (s := opened files shared)
    (t := opened good shared) files hread rfl
  have hsfiles : s₀.self.files = files :=
    (collectFiles_gathered files (sound_opened files shared).own hs₀).files
  have htfiles : t₀.self.files = good :=
    (collectFiles_gathered good (sound_opened good shared).own ht₀).files
  have hsfull := contains_full hread hs₀
  have htfull := contains_full hgood ht₀
  obtain ⟨s, hstake, hsall⟩ := analyzeFiles_until (s := number s₀) files hread hsfull
  obtain ⟨t, -, htall⟩ := analyzeFiles_until (s := number t₀) good hgood htfull
  have hnumber : bare (number s₀) = bare (number t₀) := by rw [bare_number, bare_number, h₀]
  obtain ⟨analysed, hanalysed, hsame⟩ := analyzeFiles_agree _ hnumber hstake
  rw [outcome_eq_ok.mpr hall] at htall
  -- Analyses change neither the classes nor their numbers.
  have hs := (keeps_forM files fun file => (steady_since (number s₀)).keeps_analyzeFile file).of_run
    (.refl _) hsall
  have ht := (keeps_forM good fun file => (steady_since (number t₀)).keeps_analyzeFile file).of_run
    (.refl _) htall
  have hclasses : classTable (number s₀) = classTable (number t₀) := by
    rw [← classTable_bare, hnumber, classTable_bare]
  have hnumbers : (number s₀).shared.numbering = (number t₀).shared.numbering :=
    congrArg (·.shared.numbering) hnumber
  refine ⟨s, t, number t₀, analysed, ?_, outcome_eq_ok, ?_, ?_, ?_, ?_, hanalysed, hsame,
    fun hlist => ?_⟩
  · rw [run_profile hs₀, hsfiles, hsall]
  · rw [run_profile ht₀, htfiles, htall]
  · rw [hs.classTable, ht.classTable, hclasses]
  · rw [hs.numbering, ht.numbering, hnumbers]
  · unfold collectAll Action.self
    simp only [bind_assoc, pure_bind, run_bind, run_get]
    rw [show (opened good shared).self.files = good from rfl, ht₀]
    rfl
  · rw [hlist, htall] at hanalysed
    cases hanalysed
    exact hsame

/-- Three files: one with a static import, a class, and a class with a field of it. -/
def staticImportParser : Parser :=
  parserOf [("A", branch .compilationUnit [branch .importDeclaration
      [leaf .kwImport "import", leaf .kwStatic "static", branch .qualifiedName [named "c"],
        leaf .semi ";"]]),
    ("B", branch .compilationUnit [classNamed (named "B") []]),
    ("C", branch .compilationUnit [classNamed (named "C") [fieldOf "B"]])]

def staticImportFiles : Files :=
  ⟨[(["A.java"], .text "A"), (["B.java"], .text "B"), (["C.java"], .text "C")]⟩

/-- A profile of some of these files. -/
def staticImportProfile (files : List String) : Except Fault Unit × Scene Profiler :=
  (profile staticImportParser staticImportFiles false).run.run (opened files {})

/-- The static import ends the profile of all three files, which knows the two classes all the
same. -/
theorem staticImport_ends_profile :
    (∀ file ∈ ["A.java", "B.java", "C.java"], ∃ source, staticImportFiles.read file = .ok source) ∧
    ∃ s t, staticImportProfile ["A.java", "B.java", "C.java"] = (.error (.noKey "A.java"), s) ∧
      staticImportProfile ["B.java", "C.java"] = (.ok (), t) ∧ classTable s = classTable t ∧
      (classTable t).keys = ["B", "C"] := by
  have hread : ∀ file ∈ ["A.java", "B.java", "C.java"], ∃ source, staticImportFiles.read file =
      .ok source := by
    intro file hfile
    have hok : (staticImportFiles.read file).toBool = true := by
      revert file
      decide +kernel
    cases hr : staticImportFiles.read file with
    | error f =>
      rw [hr] at hok
      cases hok
    | ok source => exact ⟨source, rfl⟩
  have hgood : ["A.java", "B.java", "C.java"].filter
      (collects staticImportParser staticImportFiles) =
      ["B.java", "C.java"] := by decide +kernel
  have houtcome : outcome staticImportParser staticImportFiles ["A.java", "B.java", "C.java"] =
      .error (.noKey "A.java") := by decide +kernel
  have hkeys : (classTable (staticImportProfile ["B.java", "C.java"]).2).keys = ["B", "C"] := by
    decide +kernel
  obtain ⟨s, t, -, -, hs, -, ht, hclasses, -⟩ :=
    profile_ends_at_uncollected staticImportParser staticImportFiles
    ["A.java", "B.java", "C.java"] {} hread
  rw [hgood] at ht
  rw [houtcome] at hs
  refine ⟨hread, s, t, hs, ht, hclasses, ?_⟩
  rw [staticImportProfile, ht] at hkeys
  exact hkeys

/-- One file that cannot be collected stops a project: the field of the third file is neither
counted nor noted, as it is without the first file. -/
theorem one_bad_file_stops_project :
    (staticImportProfile ["A.java", "B.java", "C.java"]).1.toBool = false ∧
    cell (staticImportProfile ["A.java", "B.java", "C.java"]).2.shared.numbering
      (staticImportProfile ["A.java", "B.java", "C.java"]).2.self.matrix "C" "B" = some 0 ∧
    ((classTable (staticImportProfile ["A.java", "B.java", "C.java"]).2).get? "C").map
      (staticImportProfile ["A.java", "B.java", "C.java"]).2.shared.registry.dependency = some [] ∧
    (staticImportProfile ["B.java", "C.java"]).1.toBool = true ∧
    cell (staticImportProfile ["B.java", "C.java"]).2.shared.numbering
      (staticImportProfile ["B.java", "C.java"]).2.self.matrix "C" "B" = some 1 ∧
    ((classTable (staticImportProfile ["B.java", "C.java"]).2).get? "C").map
      (staticImportProfile ["B.java", "C.java"]).2.shared.registry.dependency = some ["B"] := by
  decide +kernel

end Coupling.Project.Profiler
