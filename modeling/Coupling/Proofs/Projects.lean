import Coupling.Proofs.Identity
import Coupling.Proofs.Interactions

/-!
# Collected files

A profiler collects its files one after the other; a file that cannot be collected adds nothing. The
collections that succeed can be told from the files alone (`collections`), and so can the tables
that a profiler has after them (`Gathered`). Analyses leave these tables as they are but for symbols
under new names (`Since`).

Hence a declaration of a collected file is looked up as its own symbol, unless something later has
taken its place, and an analysis of the file notes names on the symbols that they belong to
(`declarations_found_again`). Two methods of one file that have the same signature take each other's
place.
-/

namespace Coupling.Project

open Java (ParseTree)
open Steps

/-- A file and what was collected from it. -/
structure Collection where
  file : String
  source : String
  tree : ParseTree
  before : Registry
  after : Collected
deriving Inhabited

/-- A class of a collection is a symbol of it. -/
theorem collect_contains_symbol {registry : Registry} {file source : String} {tree : ParseTree}
    {c : Collected}
    (h : collect registry file source tree = .ok c) {name : String}
    (hname : c.classes.contains name = true) :
    c.symbols.contains name = true := by
  rw [(collect_pass h).classes_eq, Table.contains_update] at hname
  rw [(collect_pass h).symbols_eq, Table.contains_update]
  refine hname.imp (fun hmem => ?_) id
  rw [List.map_map] at hmem ⊢
  exact List.map_subset _ (List.filter_subset_self _) hmem

namespace Collection

/-- What the file was found to hold, as it was read last. -/
def items (x : Collection) : List Item := secondOutline x.before x.tree

/-- The number of the first declaration of the file, as it was read last. -/
def start (x : Collection) : SymbolId :=
  x.before.size + (declarations (firstOutline x.before x.tree)).length

/-- The declarations that a reading of the file comes to. -/
def seen (x : Collection) : List Declaration := Project.seen none x.start x.tree

/-- What the declarations of the file note. -/
def notes (x : Collection) : List (Option SymbolId × String) :=
  Project.notes x.after.full x.after.registry.fullName none x.start x.tree

/-- Nothing takes the place of a declaration: neither what comes after it in its file nor files
collected later. -/
def Keeps (x : Collection) (later : List Collection) (d : Declaration) : Prop :=
  Lasts x.after x.items d ∧ ∀ y ∈ later, y.after.symbols.contains (x.after.registry.fullName d.id) =
    false

instance (x : Collection) (later : List Collection) (d : Declaration) :
    Decidable (x.Keeps later d) :=
  inferInstanceAs (Decidable (_ ∧ _))

theorem seen_subset (x : Collection) : x.seen ⊆ declarations x.items :=
  Project.seen_subset x.tree none x.start

/-- What the collection of a file is. -/
structure Made (parse : Parser) (fs : Files) (x : Collection) : Prop where
  read : fs.read x.file = .ok x.source
  parsed : x.tree = (parse x.source).tree
  collected : collect x.before x.file x.source x.tree = .ok x.after

variable {parse : Parser} {fs : Files} {x : Collection} (h : x.Made parse fs)
include h

/-- The symbol of a declaration when its file is collected. -/
theorem Made.described {d : Declaration} (hd : d ∈ declarations x.items) :
    ∃ s, x.after.registry.get? d.id = some s ∧ s.IsOf d ∧ s.dependency = [] := by
  obtain ⟨-, s, hs, hof, hdep, -⟩ := (collect_pass h.collected).described (mem_outlines hd)
  exact ⟨s, hs, hof, hdep⟩

theorem Made.nodup_symbols : x.after.symbols.keys.Nodup := by
  rw [(collect_pass h.collected).symbols_eq]
  exact Table.nodup_keys_update _ List.nodup_nil

theorem Made.nodup_classes : x.after.classes.keys.Nodup := by
  rw [(collect_pass h.collected).classes_eq]
  exact Table.nodup_keys_update _ List.nodup_nil

/-- A class is a symbol. -/
theorem Made.contains_symbol {name : String} (hname : x.after.classes.contains name = true) :
    x.after.symbols.contains name = true :=
  collect_contains_symbol h.collected hname

end Collection

namespace Profiler

variable {parse : Parser} {fs : Files} {s s' : Scene Profiler}

/-! ## Collecting all files -/

/-- The collections that succeed, in order. What cannot be read ends them; what cannot be collected
is left out. -/
def collections (parse : Parser) (fs : Files) : List String → Registry → List Collection
  | [], _ => []
  | file :: files, registry =>
    match fs.read file with
    | .error _ => []
    | .ok source =>
      match collect registry file source (parse source).tree with
      | .error _ => collections parse fs files registry
      | .ok after => ⟨file, source, (parse source).tree, registry, after⟩ ::
        collections parse fs files after.registry

theorem made_of_mem {files : List String} {registry : Registry} {x : Collection}
    (h : x ∈ collections parse fs files registry) : x.Made parse fs := by
  induction files generalizing registry with
  | nil => cases h
  | cons file files ih =>
    rw [collections] at h
    split at h
    · cases h
    · next source hread =>
      split at h
      · exact ih h
      · next after hafter =>
        rcases List.mem_cons.mp h with rfl | h
        · exact ⟨hread, rfl, hafter⟩
        · exact ih h

/-- What a profiler has after collections. -/
structure Gathered (xs : List Collection) (s s' : Scene Profiler) : Prop where
  files : s'.self.files = s.self.files
  own : s'.self.classes < s'.shared.tables.size
  classTable : classTable s' = (xs.map fun x => x.after.classes).foldl Table.update (classTable s)
  symbols : s'.self.symbols = (xs.map fun x => x.after.symbols).foldl Table.update s.self.symbols
  full : s'.self.full = s.self.full.update ⟨xs.map fun x => (x.file, x.after.full)⟩
  old : ∀ id o, s.shared.registry.get? id = some o → s'.shared.registry.get? id = some o
  kept : ∀ x ∈ xs, ∀ id o, x.after.registry.get? id = some o → s'.shared.registry.get? id = some o

theorem run_parsed {σ : Type} (parse : Parser) (source : String) (s : Scene σ) :
    ∃ complained, (Action.parsed parse source).run.run s =
      (.ok (parse source).tree, { s with shared := { s.shared with complained } }) :=
  ⟨_, rfl⟩

theorem run_say {σ : Type} (line : String) (s : Scene σ) :
    (Action.say line).run.run s =
      (.ok (), { s with shared := { s.shared with printed := s.shared.printed ++ line ++ "\n" } })
      :=
  rfl

/-- A file is collected and adds to the tables, or it only leaves words. -/
theorem collectFile_eq_ok {file : String}
    (h : (collectFile parse fs file).run.run s = (.ok (), s')) :
    ∃ source complained, fs.read file = .ok source ∧
      ((∃ c, collect s.shared.registry file source (parse source).tree = .ok c ∧
          s' = absorb file c { s with shared := { s.shared with complained } }) ∨
        ∃ f printed, collect s.shared.registry file source (parse source).tree = .error f ∧
          s' = { s with shared := { s.shared with printed, complained } }) := by
  unfold collectFile at h
  obtain ⟨source, s₁, hread, h₁⟩ := bind_eq_ok.mp h
  obtain ⟨hsource, rfl⟩ := liftExcept_eq_ok.mp hread
  obtain ⟨complained, hparsed⟩ := run_parsed parse source s₁
  rw [run_bind, hparsed] at h₁
  simp only [Action.shared, bind_assoc, pure_bind, run_bind, run_get] at h₁
  refine ⟨source, complained, hsource, ?_⟩
  split at h₁
  · next c hc =>
    cases h₁
    exact .inl ⟨c, hc, rfl⟩
  · next f hf =>
    rw [run_say] at h₁
    cases h₁
    exact .inr ⟨f, _, hf, rfl⟩

theorem collectFiles_gathered (files : List String) (hown : s.self.classes < s.shared.tables.size)
    (h : (files.forM (collectFile parse fs)).run.run s = (.ok (), s')) :
    Gathered (collections parse fs files s.shared.registry) s s' := by
  induction files generalizing s with
  | nil =>
    rw [forM_nil_eq_ok] at h
    subst h
    exact ⟨rfl, hown, rfl, rfl, rfl, fun _ _ ho => ho, fun x hx => by cases hx⟩
  | cons file files ih =>
    obtain ⟨s₁, h₁, h₂⟩ := forM_cons_eq_ok.mp h
    obtain ⟨source, complained, hread, ⟨c, hc, rfl⟩ | ⟨f, printed, hf, rfl⟩⟩ := collectFile_eq_ok h₁
    · have hrest := ih (by simpa [absorb] using hown) h₂
      have htable : classTable (absorb file c { s with shared := { s.shared with complained } }) =
          (classTable s).update c.classes := classTable_absorb hown
      have hkept : ∀ id o, c.registry.get? id = some o → s'.shared.registry.get? id = some o :=
        hrest.old
      -- The next file is collected into the registry that this one has left.
      simp only [collections, hread, hc]
      refine ⟨hrest.files, hrest.own, ?_, hrest.symbols, hrest.full, ?_, ?_⟩
      · rw [hrest.classTable, htable]
        rfl
      · intro id o ho
        exact hkept id o (collect_old hc ho)
      · intro x hx
        rcases List.mem_cons.mp hx with rfl | hx
        · exact hkept
        · exact hrest.kept x hx
    · have hrest := ih (s := { s with shared := { s.shared with printed, complained } }) hown h₂
      simp only [collections, hread, hf]
      exact ⟨hrest.files, hrest.own, hrest.classTable, hrest.symbols, hrest.full,
        hrest.old, hrest.kept⟩

/-- A profiler that has collected its files has numbered the classes of what it gathered. -/
theorem collectAll_eq_ok {files : List String} {shared : Shared}
    (h : (collectAll parse fs).run.run (opened files shared) = (.ok (), s)) :
    ∃ s₀, s = number s₀ ∧ Gathered (collections parse fs files shared.registry)
      (opened files shared) s₀ := by
  unfold collectAll Action.self at h
  simp only [bind_assoc, pure_bind, run_bind, run_get] at h
  rcases hfiles : ((opened files shared).self.files.forM (collectFile parse fs)).run.run
      (opened files shared) with
    ⟨_ | _, s₀⟩
  · rw [hfiles] at h
    cases h
  · rw [hfiles] at h
    cases h
    exact ⟨s₀, rfl, collectFiles_gathered files (sound_opened files shared).own hfiles⟩

namespace Gathered

variable {pre post : List Collection} {x : Collection} {xs : List Collection}
  (h : Gathered (pre ++ x :: post) s s')
include h

/-- A file has the names that its last collection gave it. -/
theorem full_eq (hlast : ∀ y ∈ post, y.file ≠ x.file) :
    s'.self.full.get? x.file = some x.after.full := by
  rw [h.full, List.map_append, List.map_cons]
  refine Table.get?_update_of_last fun hmem => ?_
  rw [List.map_map] at hmem
  obtain ⟨y, hy, hfile⟩ := List.mem_map.mp hmem
  exact hlast y hy hfile

/-- A symbol stands under its name unless a file that was collected later has taken it. -/
theorem symbols_eq (hx : x.Made parse fs) {name : String} {id : SymbolId}
    (hid : x.after.symbols.get? name = some id)
    (hpost : ∀ y ∈ post, y.after.symbols.contains name = false) :
    s'.self.symbols.get? name = some id := by
  rw [h.symbols, List.map_append, List.map_cons]
  refine Table.get?_updateAll_of_last hx.nodup_symbols hid fun u hu => ?_
  obtain ⟨y, hy, rfl⟩ := List.mem_map.mp hu
  exact hpost y hy

/-- A class stands under its name unless a file that was collected later has taken it. -/
theorem classes_eq (hx : x.Made parse fs) (hmade : ∀ y ∈ post, y.Made parse fs) {name : String}
    {id : SymbolId}
    (hid : x.after.classes.get? name = some id)
    (hpost : ∀ y ∈ post, y.after.symbols.contains name = false) :
    (Profiler.classTable s').get? name = some id := by
  rw [h.classTable, List.map_append, List.map_cons]
  refine Table.get?_updateAll_of_last hx.nodup_classes hid fun u hu => ?_
  obtain ⟨y, hy, rfl⟩ := List.mem_map.mp hu
  by_contra hhas
  rw [Bool.not_eq_false] at hhas
  have hsymbol := (hmade y hy).contains_symbol hhas
  rw [hpost y hy] at hsymbol
  cases hsymbol

end Gathered

/-! ## Analysing after that -/

/-- What analyses leave of what a profiler has gathered. -/
structure Since (s s' : Scene Profiler) : Prop where
  classTable : classTable s' = classTable s
  numbering : s'.shared.numbering = s.shared.numbering
  full : s'.self.full = s.self.full
  later : s.shared.registry.Later s'.shared.registry
  symbols : ∀ name id, s.self.symbols.get? name = some id → s'.self.symbols.get? name = some id

theorem Since.refl (s : Scene Profiler) : Since s s := ⟨rfl, rfl, rfl, .refl _, fun _ _ h => h⟩

theorem steady_since (s : Scene Profiler) : Steady (Since s) where
  onText _ _ _ h := ⟨h.classTable, h.numbering, h.full, h.later, h.symbols⟩
  onRead s' file source full tree h := by
    let c := setting file source full s'
    have hlater := Analyze.visit_keeps (Analyze.stable_later c s.shared.registry) {} tree
      (analysis s') h.later
    have hsymbols := Analyze.visit_keeps (Analyze.stable_symbols c s.self.symbols) {} tree
      (analysis s') h.symbols
    exact ⟨h.classTable, h.numbering, h.full, hlater, hsymbols⟩

/-- What a reading of a collected file goes by. -/
def settingOf (x : Collection) (s : Scene Profiler) : Setting :=
  setting x.file x.source x.after.full s

section Found

variable {files : List String} {shared : Shared} {pre post : List Collection} {x : Collection}

/-- A declaration whose place nothing has taken is found, also after analyses. -/
theorem found_of_keeps (hxs : collections parse fs files shared.registry = pre ++ x :: post)
    (hgathered : Gathered (pre ++ x :: post) (opened files shared) s) (hsince : Since (number s) s')
    {d : Declaration} (hd : d ∈ x.seen) (hkeeps : x.Keeps post d) :
    Analyze.Found (settingOf x s') (analysis s').symbols d := by
  have hmade : ∀ y ∈ pre ++ x :: post, y.Made parse fs := fun y hy => made_of_mem (hxs ▸ hy)
  have hx : x.Made parse fs := hmade x (by simp)
  have hpost : ∀ y ∈ post, y.Made parse fs := fun y hy => hmade y (by simp [hy])
  have hdecl := x.seen_subset hd
  obtain ⟨hlasts, hlater⟩ := hkeeps
  obtain ⟨-, hsymbol, hclass⟩ := collect_lasts hx.collected hdecl hlasts
  refine found_of_lasts hx.collected hdecl hlasts rfl ?_ fun hkind => ?_
  · exact hsince.symbols _ _ (hgathered.symbols_eq hx hsymbol hlater)
  · show (classTable s').get? _ = _
    rw [hsince.classTable]
    exact hgathered.classes_eq hx hpost (hclass hkind) hlater

/-- What was collected from a file is still there after analyses. -/
theorem later_of_collected {xs : List Collection} (hgathered : Gathered xs (opened files shared) s)
    (hx : x ∈ xs) (hsince : Since (number s) s') : x.after.registry.Later s'.shared.registry := by
  have hkept : x.after.registry.Later (number s).shared.registry :=
    fun id o ho => ⟨o, hgathered.kept x hx id o ho, rfl⟩
  exact hkept.trans hsince.later

/-- A reading of a file whose declarations keep their places notes what they note. -/
theorem visit_gained (hxs : collections parse fs files shared.registry = pre ++ x :: post)
    (hgathered : Gathered (pre ++ x :: post) (opened files shared) s) (hsince : Since (number s) s')
    (hsound : Sound s') (hkeeps : ∀ d ∈ x.seen, x.Keeps post d) :
    (Analyze.visit (settingOf x s') {} x.tree).run.run (analysis s') =
        (Analyze.visitLexical (settingOf x s') {} x.start x.tree).run.run (analysis s') ∧
      ∀ a, (Analyze.visit (settingOf x s') {} x.tree).run.run (analysis s') = (.ok (), a) →
        Analyze.Gained x.notes (analysis s') a := by
  have hx : x.Made parse fs := made_of_mem (by rw [hxs]; simp)
  have hfound : Analyze.AllFound (settingOf x s') x.seen (analysis s') :=
    fun d hd => found_of_keeps hxs hgathered hsince hd (hkeeps d hd)
  refine ⟨Analyze.visit_eq_visitLexical x.tree (List.Subset.refl _) hfound, fun a ha => ?_⟩
  refine Analyze.visit_gained (hsound.consistent _ _ _) hfound (fun d hd => ?_) ha
  obtain ⟨o, ho, -⟩ := hx.described (x.seen_subset hd)
  rw [Registry.fullName_of_get? ho]
  exact ((later_of_collected hgathered (by simp) hsince).fullName ho).symm

end Found

/-- **Declarations are found again.** Let a profiler have collected its files, and analysed any
files since. For a file that was collected, and not again later:

1. its names are those that its collection left; 2. a declaration that a reading of the file comes
to is looked up as the symbol that the collection has made for it, unless something later has taken
its place -- and the reading comes to all of them, if nothing is declared below a field or local
variable declaration; 3. if no such declaration has lost its place, the reading is one that knows
every declaration by its number, and when it comes to its end each symbol has come to depend on what
is noted on it: on what its own declaration states, and on the methods that are declared in it. -/
theorem declarations_found_again (parse : Parser) (fs fs' : Files) (files files' : List String)
    (shared : Shared) (s s' : Scene Profiler) (pre post : List Collection) (x : Collection)
    (hcollected : (collectAll parse fs).run.run (opened files shared) = (.ok (), s))
    (hxs : collections parse fs files shared.registry = pre ++ x :: post)
    (hlast : ∀ y ∈ post, y.file ≠ x.file)
    (hanalysed : s' = ((files'.forM (analyzeFile parse fs')).run.run s).2) :
    s'.self.full.get? x.file = some x.after.full ∧
    (∀ d ∈ x.seen, d ∈ declarations x.items ∧ (x.Keeps post d →
      (∃ o, s'.shared.registry.get? d.id = some o ∧ o.IsOf d) ∧
        (Analyze.lookup (settingOf x s') d).run.run (analysis s') = (.ok d.id, analysis s'))) ∧
    (FieldsDeclareNothing (spots [] x.tree) → x.seen = declarations x.items) ∧
    ((∀ d ∈ x.seen, x.Keeps post d) →
      (Analyze.visit (settingOf x s') {} x.tree).run.run (analysis s') =
        (Analyze.visitLexical (settingOf x s') {} x.start x.tree).run.run (analysis s') ∧
      ∀ a, (Analyze.visit (settingOf x s') {} x.tree).run.run (analysis s') = (.ok (), a) →
        ∀ id < s'.shared.registry.size,
          a.registry.dependency id = s'.shared.registry.dependency id ++ notedOn id x.notes) := by
  obtain ⟨s₀, rfl, hgathered⟩ := collectAll_eq_ok hcollected
  have hx : x.Made parse fs := made_of_mem (by rw [hxs]; simp)
  have hsince : Since (number s₀) s' := by
    rw [hanalysed]
    exact keeps_forM files' (fun file => (steady_since (number s₀)).keeps_analyzeFile file)
      _ (.refl _)
  have hsound : Sound s' := by
    rw [hanalysed]
    exact keeps_forM files' lasting_sound.keeps_analyzeFile _
      (lasting_sound.keeps_collectAll.of_run (sound_opened files shared) hcollected)
  rw [hxs] at hgathered
  refine ⟨?_, fun d hd => ⟨x.seen_subset hd, fun hkeeps => ⟨?_, ?_⟩⟩, ?_, fun hkeeps => ?_⟩
  · rw [hsince.full]
    exact hgathered.full_eq hlast
  · obtain ⟨o, ho, hof, -⟩ := hx.described (x.seen_subset hd)
    obtain ⟨o', ho', hsame⟩ := later_of_collected hgathered (by simp) hsince d.id o ho
    have hkind := congrArg Symbol.kind hsame
    have hstart := congrArg Symbol.startLine hsame
    have hstop := congrArg Symbol.stopLine hsame
    exact ⟨o', ho', hkind.trans hof.kind, hstart.trans hof.start,
      hof.stop.trans (congrArg some hstop.symm)⟩
  · exact (found_of_keeps hxs hgathered hsince hd hkeeps).lookup
  · exact seen_eq_declarations x.tree none x.start
  · obtain ⟨heq, hgained⟩ := visit_gained hxs hgathered hsince hsound hkeeps
    exact ⟨heq, fun a ha => (hgained a ha).dependency⟩

/-- A method that returns nothing. -/
def methodTaking (params : List ParseTree) (name : String) (body : List ParseTree) : ParseTree :=
  branch .methodDeclaration [branch .typeTypeOrVoid [leaf .kwVoid "void"], named name,
    branch .formalParameters ([leaf .lparen "("] ++ params ++ [leaf .rparen ")"]),
    branch .methodBody body]

/-- A method without parameters that returns nothing. -/
def methodNamed (name : String) (body : List ParseTree) : ParseTree := methodTaking [] name body

def localOf (type : String) : ParseTree :=
  branch .localVariableDeclaration [branch .typeType [named type]]

/-- One file with one tree. -/
def oneFile : Files := ⟨[(["A.java"], .text "A")]⟩

/-- The collection of a tree as the only file. -/
def onlyCollection (tree : ParseTree) : Collection :=
  (collections (parserOf [("A", tree)]) oneFile ["A.java"] .empty).headD default

/-- What a profiler has collected from a tree as the only file. -/
def onlyScene (tree : ParseTree) : Except Fault Unit × Scene Profiler :=
  (collectAll (parserOf [("A", tree)]) oneFile).run.run (opened ["A.java"] {})

/-- What is known after the only file is read. -/
def onlyRead (tree : ParseTree) : Except Fault Unit × Analysis :=
  (Analyze.visit (settingOf (onlyCollection tree) (onlyScene tree).2) {}
    (onlyCollection tree).tree).run.run
    (analysis (onlyScene tree).2)

/-- A class with a method that has a local variable, and the class of that variable. -/
def localInMethod : ParseTree :=
  branch .compilationUnit [classNamed (named "A") [methodNamed "run" [localOf "B"]],
    classNamed (named "B") []]

/-- The method is noted on its class, and the type of the variable on the method. -/
theorem localInMethod_found :
    (onlyRead localInMethod).1.toBool = true ∧
      (∀ d ∈ (onlyCollection localInMethod).seen, (onlyCollection localInMethod).Keeps [] d) ∧
      (∀ d ∈ (onlyCollection localInMethod).seen,
        (Analyze.lookup (settingOf (onlyCollection localInMethod) (onlyScene localInMethod).2)
          d).run.run
          (analysis (onlyScene localInMethod).2) =
            (.ok d.id, analysis (onlyScene localInMethod).2)) ∧
      (onlyRead localInMethod).2.registry.dependency 3 = ["A.run"] ∧
      (onlyRead localInMethod).2.registry.dependency 4 = ["B"] := by
  have hread : (onlyRead localInMethod).1.toBool = true := by decide +kernel
  have hkeeps : ∀ d ∈ (onlyCollection localInMethod).seen,
      (onlyCollection localInMethod).Keeps [] d := by
    decide +kernel
  have hscene : (onlyScene localInMethod).1.toBool = true := by decide +kernel
  have hone : (collections (parserOf [("A", localInMethod)]) oneFile ["A.java"] .empty).length =
    1 := by decide +kernel
  obtain ⟨y, hy⟩ := List.length_eq_one_iff.mp hone
  have hxs : collections (parserOf [("A", localInMethod)]) oneFile ["A.java"] .empty =
      [] ++ onlyCollection localInMethod :: [] := by
    rw [onlyCollection, hy]
    rfl
  have hfound := declarations_found_again (parserOf [("A", localInMethod)]) oneFile oneFile
    ["A.java"] [] {}
    (onlyScene localInMethod).2 (onlyScene localInMethod).2 [] [] (onlyCollection localInMethod)
    (eq_ok_of_toBool hscene) hxs (by simp) rfl
  have hnoted := (hfound.2.2.2 hkeeps).2 (onlyRead localInMethod).2 (eq_ok_of_toBool hread)
  refine ⟨hread, hkeeps, fun d hd => ((hfound.2.1 d hd).2 (hkeeps d hd)).2, ?_, ?_⟩
  · rw [hnoted 3 (by decide +kernel)]
    decide +kernel
  · rw [hnoted 4 (by decide +kernel)]
    decide +kernel

/-- Two classes that each have a method of the same signature. -/
def sameSignatures : ParseTree :=
  branch .compilationUnit [classNamed (named "A") [methodNamed "run" [localOf "B"]],
    classNamed (named "B") [methodNamed "run" []]]

/-- A class with a field whose initialiser declares a method. -/
def methodInField : ParseTree :=
  branch .compilationUnit [classNamed (named "A")
    [branch .fieldDeclaration [branch .typeType [named "A"],
      branch .variableDeclarators [methodNamed "f" []]]]]

/-- Of two methods with the same signature the first is looked up as the second, and its class comes
to depend on the method of the other class. To a method that is declared below a field no reading
comes. -/
theorem declarations_lost :
    (((onlyCollection sameSignatures).seen.map fun d =>
        (d.id,
          ((Analyze.lookup (settingOf (onlyCollection sameSignatures) (onlyScene sameSignatures).2)
            d).run.run
          (analysis (onlyScene sameSignatures).2)).1.toOption)) =
        [(4, some 4), (5, some 7), (6, some 6), (7, some 7)] ∧
      (onlyRead sameSignatures).1.toBool = true ∧
      (onlyRead sameSignatures).2.registry.dependency 4 = ["B.run"] ∧
      (onlyRead sameSignatures).2.registry.dependency 5 = []) ∧
    ((declarations (onlyCollection methodInField).items).map Declaration.id = [2, 3] ∧
      (onlyCollection methodInField).seen.map Declaration.id = [2] ∧
      (onlyRead methodInField).1.toBool = true ∧
      (onlyRead methodInField).2.registry.dependency 2 = ["A"]) := by
  decide +kernel

end Profiler

end Coupling.Project
