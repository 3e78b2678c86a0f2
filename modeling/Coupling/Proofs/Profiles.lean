import Coupling.Proofs.Closure
import Coupling.Proofs.Granting
import Coupling.Proofs.SingleFiles

/-!
# Profiles in closed form

What a profile of files that can all be collected leads to is said here without running it. Each
file is collected on its own (`alone`); in a project the collections are placed one after the other
(`stack`, `symbolsOf`, `classesOf`), and the requests of the files are granted in turn, each file
with the names that are known by then (`performed`). `profile_continued` says that a profile comes
to its end and what it makes of what was known before (`Continued`), and `profile_profiled` what it
leads to if nothing was known (`Profiled`).
-/

namespace Coupling.Project

open Java (ParseTree)
open Steps

/-! ## Collections side by side -/

namespace Collection

/-- A collection moved after the symbols of a registry. -/
def onto (r : Registry) (x : Collection) : Collection :=
  { x with before := r, after := x.after.onto r }

/-- The requests of the file. -/
def script (x : Collection) : List Request := Project.script x.after.full {} x.tree

end Collection

/-- The registry after collections. -/
def stack (r : Registry) (xs : List Collection) : Registry :=
  xs.foldl (fun r x => r.onto x.after.registry) r

/-- Collections one after the other. -/
def placed (r : Registry) : List Collection → List Collection
  | [] => []
  | x :: xs => x.onto r :: placed (r.onto x.after.registry) xs

/-- The symbols of collections under their names. -/
def symbolsOf (r : Registry) (xs : List Collection) : Table SymbolId :=
  ((placed r xs).map fun x => x.after.symbols).foldl Table.update ∅

/-- The classes of collections under their names. -/
def classesOf (r : Registry) (xs : List Collection) : ClassTable :=
  ((placed r xs).map fun x => x.after.classes).foldl Table.update ∅

/-- The names of collections. -/
def namesOf (xs : List Collection) : Names where
  classes name := xs.any fun x => x.after.classes.contains name
  symbols name := xs.any fun x => x.after.classes.contains name || x.after.symbols.contains name
  symbol_of_class name h := by
    obtain ⟨x, hx, hname⟩ := List.any_eq_true.mp h
    exact List.any_eq_true.mpr ⟨x, hx, by rw [hname, Bool.true_or]⟩

variable {xs : List Collection}

theorem classes_namesOf {x : Collection} (hx : x ∈ xs) {name : String}
    (h : x.after.classes.contains name = true) :
    (namesOf xs).classes name = true :=
  List.any_eq_true.mpr ⟨x, hx, h⟩

theorem symbols_namesOf {x : Collection} (hx : x ∈ xs) {name : String}
    (h : x.after.symbols.contains name = true) :
    (namesOf xs).symbols name = true :=
  List.any_eq_true.mpr ⟨x, hx, by rw [h, Bool.or_true]⟩

/-- What the analyses of a project start from. -/
def startOf (r : Registry) (xs : List Collection) : Analysis :=
  ⟨stack r xs, symbolsOf r xs, some (.zero (classesOf r xs).size)⟩

/-- The requests of files that are granted, one file after the other. -/
def performed (v : Names) : List (List Request) → List Request
  | [] => []
  | rs :: rest => granted v rs ++ performed (v.after (granted v rs)) rest

/-- The requests of a project that are granted. -/
def fulfilled (xs : List Collection) : List Request :=
  performed (namesOf xs) (xs.map Collection.script)

theorem length_granted_le (v : Names) (rs : List Request) : (granted v rs).length ≤ rs.length := by
  induction rs generalizing v with
  | nil => exact Nat.le_refl _
  | cons r rs ih =>
    rw [granted]
    split
    · exact Nat.succ_le_succ (ih _)
    · exact Nat.zero_le _

theorem length_performed_le (v : Names) (rss : List (List Request)) :
    (performed v rss).length ≤ rss.flatten.length := by
  induction rss generalizing v with
  | nil => exact Nat.le_refl _
  | cons rs rss ih =>
    rw [performed, List.flatten_cons, List.length_append, List.length_append]
    exact Nat.add_le_add (length_granted_le v rs) (ih _)

/-- All requests of files are granted if those of each are. -/
theorem performed_cons_eq (v : Names) (rs : List Request) (rss : List (List Request)) :
    performed v (rs :: rss) = (rs :: rss).flatten ↔
      granted v rs = rs ∧ performed (v.after (granted v rs)) rss = rss.flatten := by
  rw [performed, List.flatten_cons]
  constructor
  · intro h
    refine List.append_inj h ?_
    have hlength := congrArg List.length h
    rw [List.length_append, List.length_append] at hlength
    have hfirst := length_granted_le v rs
    have hrest := length_performed_le (v.after (granted v rs)) rss
    omega
  · rintro ⟨hfirst, hrest⟩
    rw [hrest, hfirst]

theorem Names.after_append (v : Names) (rs rs' : List Request) :
    v.after (rs ++ rs') = (v.after rs).after rs' :=
  List.foldl_append

theorem map_placed {α : Type} {f : Collection → α} (hf : ∀ r x, f (Collection.onto r x) = f x)
    (r : Registry) (xs : List Collection) : (placed r xs).map f = xs.map f := by
  induction xs generalizing r with
  | nil => rfl
  | cons x xs ih => rw [placed, List.map_cons, List.map_cons, hf, ih]

theorem contains_updateAll_placed {f : Collection → Table SymbolId}
    (hf : ∀ r x, f (Collection.onto r x) = (f x).shift r.size) (r : Registry) (t : Table SymbolId)
    (xs : List Collection)
    (name : String) : (((placed r xs).map f).foldl Table.update t).contains name =
      (t.contains name || xs.any fun x => (f x).contains name) := by
  have hsame (r : Registry) (x : Collection) : (f (x.onto r)).contains name =
      (f x).contains name := by
    rw [hf, Table.contains_shift]
  have hany (ys : List Collection) : (ys.any fun x => (f x).contains name) =
      (ys.map fun x => (f x).contains name).any id := by
    rw [List.any_map]
    rfl
  rw [Table.contains_updateAll, List.any_map, Function.comp_def, hany, map_placed hsame, ← hany]

/-- The classes that are known with those of collections. -/
theorem contains_classes (r : Registry) (t : ClassTable) (xs : List Collection) (name : String) :
    (((placed r xs).map fun x => x.after.classes).foldl Table.update t).contains name =
      (t.contains name || (namesOf xs).classes name) :=
  contains_updateAll_placed (f := fun x => x.after.classes) (fun _ _ => rfl) r t xs name

/-- The symbols that are known with those of collections. -/
theorem contains_symbols (r : Registry) (t : Table SymbolId)
    (h : ∀ x ∈ xs, ∀ name, x.after.classes.contains name = true →
      x.after.symbols.contains name = true) (name : String) :
    (((placed r xs).map fun x => x.after.symbols).foldl Table.update t).contains name =
      (t.contains name || (namesOf xs).symbols name) := by
  refine (contains_updateAll_placed (f := fun x => x.after.symbols)
    (fun _ _ => rfl) r t xs name).trans ?_
  congr 1
  rw [Bool.eq_iff_iff]
  show _ ↔ (xs.any fun x => x.after.classes.contains name || x.after.symbols.contains name) = true
  simp only [List.any_eq_true, Bool.or_eq_true]
  constructor
  · rintro ⟨x, hx, hname⟩
    exact ⟨x, hx, .inr hname⟩
  · rintro ⟨x, hx, hname | hname⟩
    · exact ⟨x, hx, h x hx name hname⟩
    · exact ⟨x, hx, hname⟩

theorem contains_classesOf (r : Registry) (xs : List Collection) (name : String) :
    (classesOf r xs).contains name = (namesOf xs).classes name :=
  contains_classes r ∅ xs name

/-- The symbols that are known with those of collections. -/
def symbolsWith (s : Scene Profiler) (xs : List Collection) : Table SymbolId :=
  ((placed s.shared.registry xs).map fun x => x.after.symbols).foldl Table.update s.self.symbols

/-- What a profile of collected files makes of what was known before, when `v` are the names that
are known once the files are collected. -/
structure Continued (v : Names) (xs : List Collection) (s s' : Scene Profiler) : Prop where
  files : s'.self.files = s.self.files
  classes : Profiler.classTable s' =
    ((placed s.shared.registry xs).map fun x => x.after.classes).foldl Table.update
      (Profiler.classTable s)
  full : s'.self.full = s.self.full.update ⟨xs.map fun x => (x.file, x.after.full)⟩
  numbering : s'.shared.numbering = ⟨(Profiler.classTable s').keys⟩
  done : Performed (Profiler.classTable s') s'.shared.numbering
    (performed v (xs.map Collection.script))
    ⟨stack s.shared.registry xs, symbolsWith s xs, some (.zero (Profiler.classTable s').size)⟩
      (Profiler.analysis s')
  added : (symbolsWith s xs).entries <+: s'.self.symbols.entries
  square : ∃ m, s'.self.matrix = some m ∧ m.Square (Profiler.classTable s').size
  known : ∀ name, s'.self.symbols.contains name =
    (v.after (performed v (xs.map Collection.script))).symbols name

/-- What a profile of collected files leads to. -/
structure Profiled (r : Registry) (xs : List Collection) (s : Scene Profiler) : Prop where
  classTable : Profiler.classTable s = classesOf r xs
  numbering : s.shared.numbering = ⟨(classesOf r xs).keys⟩
  done : Performed (classesOf r xs) ⟨(classesOf r xs).keys⟩ (fulfilled xs) (startOf r xs)
    (Profiler.analysis s)
  known : ∀ name, s.self.symbols.contains name = ((namesOf xs).after (fulfilled xs)).symbols name

/-- Nothing has been counted in a new matrix, and there is a count for every two classes. -/
theorem cell_zero {α : Type} (t : Table α) (p q : String) :
    cell ⟨t.keys⟩ (some (.zero t.size)) p q =
      if t.contains p = true ∧ t.contains q = true then some 0 else none := by
  have hlength : (⟨t.keys⟩ : Numbering).names.length = t.size := List.length_map _
  have hnone {name : String} (h : ¬ t.contains name = true) : (⟨t.keys⟩ : Numbering).index? name =
      none := by
    by_contra hsome
    obtain ⟨i, hi⟩ := Option.ne_none_iff_exists'.mp hsome
    exact h (Table.contains_iff_mem_keys.mpr (List.mem_of_getElem? (Numbering.names_of_index? hi)))
  unfold cell
  split
  · next h =>
    obtain ⟨i, hi, hilt⟩ := Numbering.exists_index? (n := ⟨t.keys⟩)
      (Table.contains_iff_mem_keys.mp h.1)
    obtain ⟨j, hj, hjlt⟩ := Numbering.exists_index? (n := ⟨t.keys⟩)
      (Table.contains_iff_mem_keys.mp h.2)
    rw [hlength] at hilt hjlt
    simp [hi, hj, Matrix.cell?, Matrix.zero, hilt, hjlt]
  · next h =>
    rcases Classical.not_and_iff_not_or_not.mp h with hp | hq
    · simp [hnone hp]
    · simp [hnone hq]

/-- How often the files of a project get an interaction of two classes counted. -/
def interactions (xs : List Collection) (p q : String) : Nat :=
  if p = q then 0 else (fulfilled xs).count (.interact p q)

/-- What a profile has counted: for every two classes the interactions that were granted. -/
theorem Profiled.cell_eq {r : Registry} {s : Scene Profiler} (h : Profiled r xs s) (p q : String) :
    cell s.shared.numbering s.self.matrix p q =
      if (namesOf xs).classes p = true ∧ (namesOf xs).classes q = true then
        some (Int64.ofNat (interactions xs p q)) else none := by
  rw [h.numbering, show s.self.matrix = (Profiler.analysis s).matrix from rfl, h.done.counts p q]
  show (cell ⟨(classesOf r xs).keys⟩ (some (.zero (classesOf r xs).size)) p q).map _ = _
  rw [cell_zero, contains_classesOf, contains_classesOf]
  split
  · next hboth =>
    rw [tally, contains_classesOf, contains_classesOf, Option.map_some, Int64.zero_add]
    unfold interactions
    by_cases hpq : p = q
    · rw [if_pos hpq, if_neg fun hne => hne.1 hpq]
    · rw [if_neg hpq, if_pos ⟨hpq, hboth⟩]
  · rfl

namespace Profiler

variable {parse : Parser} {fs : Files} {s s' : Scene Profiler}

/-- The collection of a file on its own. -/
def alone (parse : Parser) (fs : Files) (file : String) : Option Collection :=
  match fs.read file with
  | .error _ => none
  | .ok source =>
    match collect .empty file source (parse source).tree with
    | .error _ => none
    | .ok c => some ⟨file, source, (parse source).tree, .empty, c⟩

variable {file : String} {x : Collection} {files : List String} {v : Names}

/-- What the collection of a file on its own is. -/
theorem alone_eq_some (h : alone parse fs file = some x) :
    x.file = file ∧ x.before = .empty ∧ x.Made parse fs := by
  unfold alone at h
  split at h
  · cases h
  · next source hread =>
    split at h
    · cases h
    · next c hc =>
      cases h
      exact ⟨rfl, rfl, hread, rfl, hc⟩

theorem exists_alone (h : collects parse fs file = true) : ∃ x, alone parse fs file = some x := by
  unfold collects at h
  cases hread : fs.read file with
  | error f =>
    rw [hread] at h
    cases h
  | ok source =>
    cases hc : collect .empty file source (parse source).tree with
    | error f =>
      simp only [hread, hc] at h
      cases h
    | ok c =>
      simp only [alone, hread, hc]
      exact ⟨_, rfl⟩

/-- A file is collected in a project as it is on its own. -/
theorem collect_of_alone (h : alone parse fs file = some x) (r : Registry) :
    fs.read file = .ok x.source ∧ x.tree = (parse x.source).tree ∧
      collect r file x.source (parse x.source).tree = .ok (x.after.onto r) := by
  obtain ⟨rfl, hbefore, hmade⟩ := alone_eq_some h
  have hcollect := hmade.collected
  rw [hbefore, hmade.parsed] at hcollect
  refine ⟨hmade.read, hmade.parsed, ?_⟩
  rw [collect_onto, hcollect]
  rfl

theorem collections_eq_placed (h : ∀ file ∈ files, collects parse fs file = true) (r : Registry) :
    collections parse fs files r = placed r (files.filterMap (alone parse fs)) := by
  induction files generalizing r with
  | nil => rfl
  | cons file files ih =>
    obtain ⟨x, hx⟩ := exists_alone (h file List.mem_cons_self)
    obtain ⟨hread, htree, hcollect⟩ := collect_of_alone hx r
    obtain ⟨hfile, -, -⟩ := alone_eq_some hx
    simp only [collections, hread, hcollect, List.filterMap_cons_some hx, placed]
    rw [ih (fun file' h' => h file' (List.mem_cons_of_mem _ h')), ← htree, ← hfile]
    rfl

/-- After the collection of files, the registry holds their symbols one after the other, and nothing
is printed. -/
theorem registry_collectFiles (h : ∀ file ∈ files, collects parse fs file = true) :
    ∃ s', (files.forM (collectFile parse fs)).run.run s = (.ok (), s') ∧
      s'.shared.registry = stack s.shared.registry (files.filterMap (alone parse fs)) ∧
      s'.shared.printed = s.shared.printed := by
  induction files generalizing s with
  | nil => exact ⟨s, rfl, rfl, rfl⟩
  | cons file files ih =>
    obtain ⟨x, hx⟩ := exists_alone (h file List.mem_cons_self)
    obtain ⟨hread, -, hcollect⟩ := collect_of_alone hx s.shared.registry
    have hrun := run_collectFile parse fs file s
    simp only [hread, hcollect] at hrun
    obtain ⟨s', hs', hregistry, hprinted⟩ := ih (s := absorb file (x.after.onto s.shared.registry)
      (heard parse x.source s)) fun file' h' => h file' (List.mem_cons_of_mem _ h')
    refine ⟨s', forM_cons_eq_ok.mpr ⟨_, hrun, hs'⟩, ?_, hprinted⟩
    rw [hregistry, List.filterMap_cons_some hx]
    rfl

/-! ## Analysing side by side -/

theorem Ready.of_setting {c c' : Setting} {a : Analysis} (h : Analyze.Ready c v a)
    (hclasses : c'.classes = c.classes)
    (hnumbering : c'.numbering = c.numbering) : Analyze.Ready c' v a := by
  obtain ⟨h₁, h₂, h₃, h₄, h₅⟩ := h
  rw [← hclasses] at h₁ h₄
  rw [← hnumbering] at h₄ h₅
  exact ⟨h₁, h₂, ⟨hclasses ▸ h₃.classes, h₃.symbols⟩, h₄, h₅⟩

/-- Something was printed, unless a condition holds. -/
def Said (s s' : Scene Profiler) (quiet : Prop) : Prop :=
  ∃ words, s'.shared.printed = s.shared.printed ++ words ∧ (words = "" ↔ quiet)

theorem Said.printed_eq_iff {quiet : Prop} (h : Said s s' quiet) :
    s'.shared.printed = s.shared.printed ↔ quiet := by
  obtain ⟨words, hprinted, hquiet⟩ := h
  rw [hprinted, ← hquiet, String.append_eq_left_iff]

theorem Said.trans {s'' : Scene Profiler} {quiet quiet' : Prop} (h : Said s s' quiet)
    (h' : Said s' s'' quiet') :
    Said s s'' (quiet ∧ quiet') := by
  obtain ⟨words, hprinted, hquiet⟩ := h
  obtain ⟨words', hprinted', hquiet'⟩ := h'
  refine ⟨words ++ words', by rw [hprinted', hprinted, String.append_assoc], ?_⟩
  rw [← hquiet, ← hquiet', String.append_eq_empty_iff]

/-- An analysis of a collected file carries out its requests. -/
theorem analyzeFile_performed (hmade : x.Made parse fs)
    (hfull : s.self.full.get? x.file = some x.after.full)
    (hready : Analyze.Ready (setting x.file x.source x.after.full s) v (analysis s)) :
    ∃ s', (analyzeFile parse fs x.file).run.run s = (.ok (), s') ∧
      Performed (classTable s) s.shared.numbering (granted v x.script) (analysis s) (analysis s') ∧
      Analyze.Ready (setting x.file x.source x.after.full s) (v.after (granted v x.script))
        (analysis s') ∧
      classTable s' = classTable s ∧ s'.shared.numbering = s.shared.numbering ∧
      s'.self.full = s.self.full ∧
      Said s s' (granted v x.script = x.script) := by
  have hdoes : (Analyze.visit (setting x.file x.source x.after.full s) {} x.tree).run.run
      (analysis s) =
      Analyze.carryOut (setting x.file x.source x.after.full s) x.script (analysis s) :=
    hready.consistent.visit_eq x.tree
  obtain ⟨hdone, hready', hend⟩ := Analyze.carryOut_performed hready x.script
  have hrun := run_analyzeFile parse fs x.file s
  simp only [hfull, hmade.read, ← hmade.parsed, hdoes] at hrun
  generalize hout : Analyze.carryOut (setting x.file x.source x.after.full s) x.script
    (analysis s) = out at *
  refine ⟨_, hrun, ?_⟩
  obtain ⟨_ | _, a⟩ := out
  · refine ⟨hdone, hready', rfl, rfl, rfl, _, String.append_assoc .., ?_⟩
    rw [← hend, String.append_eq_empty_iff]
    simp
  · exact ⟨hdone, hready', rfl, rfl, rfl, "", String.append_empty.symm, by simp [← hend]⟩

/-- Analyses of collected files carry out their requests, one file after the other. -/
theorem analyzeFiles_performed {xs : List Collection} (hmade : ∀ x ∈ xs, x.Made parse fs)
    (hfull : ∀ x ∈ xs, s.self.full.get? x.file = some x.after.full)
    (hready : Analyze.Ready (setting "" "" ∅ s) v (analysis s)) :
    ∃ s', ((xs.map (·.file)).forM (analyzeFile parse fs)).run.run s = (.ok (), s') ∧
      Performed (classTable s) s.shared.numbering (performed v (xs.map Collection.script))
        (analysis s) (analysis s') ∧
      Analyze.Ready (setting "" "" ∅ s) (v.after (performed v (xs.map Collection.script)))
        (analysis s') ∧
      classTable s' = classTable s ∧ s'.shared.numbering = s.shared.numbering ∧
      Said s s' (performed v (xs.map Collection.script) = (xs.map Collection.script).flatten) := by
  induction xs generalizing s v with
  | nil => exact ⟨s, rfl, .refl _, hready, rfl, rfl, "", String.append_empty.symm,
    by simp [performed]⟩
  | cons x xs ih =>
    obtain ⟨s₁, hrun, hdone, hready₁, hclasses, hnumbering, hsame, hsaid⟩ := analyzeFile_performed
      (hmade x List.mem_cons_self) (hfull x List.mem_cons_self) (Ready.of_setting hready rfl rfl)
    have hready₂ : Analyze.Ready (setting "" "" ∅ s₁) (v.after (granted v x.script))
        (analysis s₁) :=
      Ready.of_setting hready₁ hclasses hnumbering
    obtain ⟨s', hrun', hdone', hready', hclasses', hnumbering', hsaid'⟩ := ih
      (fun y hy => hmade y (List.mem_cons_of_mem _ hy))
      (fun y hy => by rw [hsame]; exact hfull y (List.mem_cons_of_mem _ hy)) hready₂
    refine ⟨s', forM_cons_eq_ok.mpr ⟨s₁, hrun, hrun'⟩, ?_, ?_, hclasses'.trans hclasses,
      hnumbering'.trans hnumbering, ?_⟩
    · rw [hclasses, hnumbering] at hdone'
      exact hdone.trans hdone'
    · rw [List.map_cons, performed, Names.after_append]
      exact Ready.of_setting hready' hclasses.symm hnumbering.symm
    · rw [List.map_cons, performed_cons_eq]
      exact hsaid.trans hsaid'

theorem files_alone (h : ∀ file ∈ files, collects parse fs file = true) :
    (files.filterMap (alone parse fs)).map (·.file) = files := by
  induction files with
  | nil => rfl
  | cons file files ih =>
    obtain ⟨x, hx⟩ := exists_alone (h file List.mem_cons_self)
    rw [List.filterMap_cons_some hx, List.map_cons, (alone_eq_some hx).1,
      ih fun file' h' => h file' (List.mem_cons_of_mem _ h')]

/-- What is collected from one file is the same wherever it stands. -/
theorem alone_of_mem (h : x ∈ files.filterMap (alone parse fs)) :
    alone parse fs x.file = some x := by
  obtain ⟨file, -, hx⟩ := List.mem_filterMap.mp h
  rw [(alone_eq_some hx).1, hx]

/-- The names of the files, as they are found after their collection. -/
theorem get?_full_alone (hx : x ∈ files.filterMap (alone parse fs)) (t : Table (Table String)) :
    (t.update ⟨(files.filterMap (alone parse fs)).map fun x =>
      (x.file, x.after.full)⟩).get? x.file = some x.after.full := by
  have hmem :
      x.file ∈ ((files.filterMap (alone parse fs)).map fun x => (x.file, x.after.full)).map (·.1) :=
    List.mem_map_of_mem (List.mem_map_of_mem hx)
  obtain ⟨full, hentry, hfull⟩ := Table.get?_update_of_mem t hmem
  obtain ⟨y, hy, heq⟩ := List.mem_map.mp hentry
  -- Two collections of one file are the same.
  have hsame : some y = some x := by rw [← alone_of_mem hx, ← alone_of_mem hy, (Prod.mk.inj heq).1]
  cases hsame
  rw [hfull, (Prod.mk.inj heq).2]

/-- After the collection of files, an analysis can rely on the names that are known. -/
theorem ready_number {s : Scene Profiler}
    (hclasses : ∀ name, v.classes name = (classTable s).contains name)
    (hsymbols : ∀ name, v.symbols name = s.self.symbols.contains name) (hsound : Sound s)
    (hclosed : Closed s.shared.registry s.self.symbols) :
    Analyze.Ready (setting "" "" ∅ (number s)) v (analysis (number s)) := by
  refine ⟨hclasses, hsymbols, ⟨hsound.named, fun name id hid => ?_⟩, fun name hname => ?_, rfl, ?_⟩
  · obtain ⟨i, hi, hname, -⟩ := hclosed.entries name id hid
    exact ⟨i, hi, hname⟩
  · exact Table.contains_iff_mem_keys.mp hname
  · rintro m ⟨⟩
    show (Matrix.zero (classTable s).size).Covers (classTable s).keys.length
    rw [Table.keys, List.length_map]
    exact Matrix.covers_zero _

/-- A reading adds symbols at the end of their table. -/
theorem stable_entries (c : Setting) (t : Table SymbolId) :
    Analyze.Stable c fun a => t.entries <+: a.symbols.entries where
  onDependency _ _ _ h _ _ := h
  onSuper _ _ _ h := h
  onCount _ _ _ _ h _ := h
  onImport a i h _ _ hnew := by
    refine h.trans ?_
    show a.symbols.entries <+: (a.symbols.put i.fullName a.registry.size).entries
    rw [Table.entries_put_of_not_contains hnew]
    exact List.prefix_append _ _

/-- A reading leaves a square matrix square. -/
theorem stable_square (c : Setting) (n : Nat) :
    Analyze.Stable c fun a => ∃ m, a.matrix = some m ∧ m.Square n where
  onDependency _ _ _ h _ _ := h
  onSuper _ _ _ h := h
  onCount a m p q h hm := by
    obtain ⟨m₀, hm₀, hsquare⟩ := h
    obtain ⟨m₁, i, j, hm₁, -, -, hbump⟩ := countInteraction_eq_ok hm
    cases hm₀.symm.trans hm₁
    exact ⟨m, rfl, hsquare.bump hbump⟩
  onImport _ _ h _ _ _ := h

/-- What analyses leave: the files of a project and what their names stand for, the symbols that are
known, and the form of the matrix. -/
structure Unmoved (s s' : Scene Profiler) : Prop where
  files : s'.self.files = s.self.files
  full : s'.self.full = s.self.full
  symbols : s.self.symbols.entries <+: s'.self.symbols.entries
  square : ∃ m, s'.self.matrix = some m ∧ m.Square (classTable s).size

theorem steady_unmoved (s : Scene Profiler) : Steady (Unmoved s) where
  onText _ _ _ h := ⟨h.files, h.full, h.symbols, h.square⟩
  onRead s' _ _ _ tree h :=
    ⟨h.files, h.full, Analyze.visit_keeps (stable_entries _ s.self.symbols) {} tree
      (analysis s') h.symbols, Analyze.visit_keeps (stable_square _ (classTable s).size) {} tree
        (analysis s') h.square⟩

/-- **A profile goes on from what was known.** If all files can be collected, a profile of them
comes to its end, and what it makes of what was known before can be told from the files: the tables
from their collections, all else from the requests that are granted. Nothing is printed just if all
are granted. -/
theorem profile_continued {xs : List Collection}
    (hxs : s.self.files.filterMap (alone parse fs) = xs)
    (h : ∀ file ∈ s.self.files, collects parse fs file = true) (hsound : Sound s)
    (hclosed : Closed s.shared.registry s.self.symbols)
    (hclasses : ∀ name, v.classes name = ((classTable s).contains name ||
      (namesOf xs).classes name))
    (hsymbols : ∀ name, v.symbols name = (s.self.symbols.contains name ||
      (namesOf xs).symbols name)) :
    ∃ s', (profile parse fs false).run.run s = (.ok (), s') ∧ Continued v xs s s' ∧
      Said s s' (performed v (xs.map Collection.script) = (xs.map Collection.script).flatten) := by
  obtain ⟨s₀, hcollect, hregistry, hprinted⟩ := registry_collectFiles (s := s) h
  have hgathered := collectFiles_gathered s.self.files hsound.own hcollect
  rw [collections_eq_placed h, hxs] at hgathered
  have hsound₀ := (keeps_forM _ fun file => lasting_sound.keeps_collectFile file).of_run
    hsound hcollect
  have hclosed₀ := (keeps_forM _ fun file => lasting_closed.keeps_collectFile file).of_run
    hclosed hcollect
  have hmade (x : Collection) (hx : x ∈ xs) : x.Made parse fs :=
    (alone_eq_some (alone_of_mem (hxs ▸ hx))).2.2
  have hready := ready_number (s := s₀) (v := v)
    (fun name => by rw [hgathered.classTable, contains_classes, hclasses])
    (fun name => by
      rw [hgathered.symbols, contains_symbols _ _ fun x hx _ => (hmade x hx).contains_symbol,
        hsymbols])
    hsound₀ hclosed₀
  have hfull₀ : (number s₀).self.full = s.self.full.update ⟨xs.map fun x =>
      (x.file, x.after.full)⟩ := by
    refine hgathered.full.trans ?_
    rw [map_placed fun _ _ => rfl]
  have hfull (x : Collection) (hx : x ∈ xs) : (number s₀).self.full.get? x.file =
      some x.after.full := by
    rw [hfull₀, ← hxs]
    exact get?_full_alone (hxs ▸ hx) _
  obtain ⟨s', hrun, hdone, hready', hclasses', hnumbering', hsaid⟩ :=
    analyzeFiles_performed hmade hfull hready
  have hfiles : xs.map (·.file) = s₀.self.files := by rw [← hxs, files_alone h, hgathered.files]
  rw [hfiles] at hrun
  have hkept := (keeps_forM s₀.self.files fun file =>
    (steady_unmoved (number s₀)).keeps_analyzeFile file).of_run
    (s := number s₀) ⟨rfl, rfl, List.prefix_refl _, _, rfl, Matrix.square_zero _⟩ hrun
  rw [← run_profile hcollect] at hrun
  have hnumbering : s'.shared.numbering = ⟨(classTable s').keys⟩ := by
    rw [hnumbering', hclasses']; rfl
  have hstart : analysis (number s₀) = ⟨stack s.shared.registry xs, symbolsWith s xs,
      some (.zero (classTable s').size)⟩ := by
    unfold analysis symbolsWith
    rw [hclasses', ← hgathered.symbols, ← hxs, ← hregistry]
    rfl
  refine ⟨s', hrun, ⟨hkept.files.trans hgathered.files, hclasses'.trans hgathered.classTable,
    hkept.full.trans hfull₀, hnumbering, ?_, ?_, ?_, fun name => (hready'.symbols name).symm⟩, ?_⟩
  · rw [← hstart, hclasses', hnumbering']
    exact hdone
  · unfold symbolsWith
    rw [← hgathered.symbols]
    exact hkept.symbols
  · rw [hclasses']
    exact hkept.square
  · obtain ⟨words, hwords, hquiet⟩ := hsaid
    exact ⟨words, hwords.trans (congrArg (· ++ words) hprinted), hquiet⟩

/-- **A profile in closed form.** If all files can be collected, a profile of them comes to its end,
and what it leads to can be told from the files: the tables from their collections, all else from
the requests that are granted. Nothing is printed just if all are granted. -/
theorem profile_profiled (h : ∀ file ∈ files, collects parse fs file = true) (shared : Shared) :
    ∃ s, (profile parse fs false).run.run (opened files shared) = (.ok (), s) ∧
      Profiled shared.registry (files.filterMap (alone parse fs)) s ∧
      (s.shared.printed = shared.printed ↔ fulfilled (files.filterMap (alone parse fs)) =
        ((files.filterMap (alone parse fs)).map Collection.script).flatten) := by
  have hempty := classes_opened files shared
  obtain ⟨s, hrun, hs, hsaid⟩ := profile_continued (s := opened files shared)
    (v := namesOf (files.filterMap (alone parse fs))) rfl h (sound_opened files shared)
      (closed_opened files shared)
    (fun name => by rw [hempty]; rfl) fun name => rfl
  have hclasses : classTable s = classesOf shared.registry (files.filterMap (alone parse fs)) := by
    rw [hs.classes, hempty]
    rfl
  have hnumbering := hs.numbering
  have hdone := hs.done
  rw [hnumbering, hclasses] at hdone
  rw [hclasses] at hnumbering
  exact ⟨s, hrun, ⟨hclasses, hnumbering, hdone, hs.known⟩, hsaid.printed_eq_iff⟩

end Profiler

end Coupling.Project
