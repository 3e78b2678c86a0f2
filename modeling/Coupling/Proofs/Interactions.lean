import Coupling.Proofs.Granting

/-!
# Interactions that are counted

Whatever a profiler was asked to do, a reading of a tree that comes to its end has raised each cell
of the matrix by the number of references that the tree states between the two classes
(`visit_counts_references`). There is one class for which more is counted: the name `""` also stands
for the place outside every class, and a class that is declared without a name has it.

What a reading counts stands in its list of requests, and this part of the list are the references
of the tree, one after the other (`interactions_script`). The induction is over the tree, with the
class nearest around a place.
-/

namespace Coupling.Project

open Java (ParseTree RuleName Kind)
open Steps

/-! ## Requests to count -/

mutual

/-- A reading that does not end of itself counts the references that the tree states. -/
theorem interactions_script {full : Table String} :
    ∀ (t : ParseTree) {above : List ParseTree} {w : Place}
    {source : Option String}, t.nests importsNames = true → Unbroken (script full w t) →
    above.any isHiding = false →
    classAround full above = [source] → w.className = source.getD "" →
    (script full w t).filterMap Request.interact? =
      ((spots above t).flatMap (referencesAt full)).map counted
  | .token _, _, _, _, _, _, _, _, _ | .skipped _, _, _, _, _, _, _, _, _ | .missing _, _, _, _, _,
    _, _, _, _ => rfl
  | .node info cs, above, w, source, hnest, h, hopen, haround, hclass => by
    have hnests : Java.allNest importsNames cs = true := (Bool.and_eq_true_iff.mp hnest).2
    have hnear (htype : isType (.node info cs) = false) : classAround full
        (.node info cs :: above) = [source] :=
      (classAround_of_not_type above htype).trans haround
    have hinside (hhide : isHiding (.node info cs) = false) : (ParseTree.node info cs :: above).any
        isHiding = false := by
      rw [List.any_cons, hhide, hopen, Bool.or_self]
    rw [spots, List.flatMap_cons, List.map_append]
    cases hrole : roleOf (.node info cs) with
    | package =>
      rw [script_package h hrole, referencesAt_of_none (by simp only [statedTypes, hrole]),
        spotsOf_hidden full (by simp only [List.any_cons, isHiding, hrole, Bool.true_or])]
      rfl
    | «import» =>
      obtain ⟨name, hscript⟩ := script_import h hrole
      have hnone := spots_import full above hrole hnest
      rw [spots, List.flatMap_cons] at hnone
      rw [← List.map_append, hnone, hscript]
      rfl
    | type kind =>
      obtain ⟨n, name, hn, hname, hscript⟩ := script_type h hrole
      have hown : classAround full (.node info cs :: above) = [some name] :=
        classAround_type hrole hn hname
      rw [hscript] at h ⊢
      rw [List.filterMap_cons_none (f := Request.interact?) rfl, List.filterMap_append,
        filterMap_inheriting _ _ _ fun _ _ => rfl, interactions_stated,
        counted_referencesAt hopen hown, interactions_scriptAll cs hnests h.tail.right
          (hinside (by simp only [isHiding, hrole])) hown rfl]
      rfl
    | method =>
      obtain ⟨key, name, -, -, hscript⟩ := script_method h hrole
      have hsame := hnear (by simp only [isType, hrole])
      rw [hscript] at h ⊢
      rw [List.filterMap_cons_none (f := Request.interact?) rfl,
        List.filterMap_cons_none (f := Request.interact?) rfl, List.filterMap_append,
        interactions_stated, counted_referencesAt hopen hsame,
        interactions_scriptAll cs hnests h.tail.tail.right
          (hinside (by simp only [isHiding, hrole])) hsame hclass, hclass]
      rfl
    | field =>
      rw [script_field h hrole, interactions_stated,
        counted_referencesAt hopen (hnear (by simp only [isType, hrole])),
        spotsOf_hidden full (by simp only [List.any_cons, isHiding, hrole, Bool.true_or]), hclass]
      exact (List.append_nil _).symm
    | other =>
      rw [script_other hrole] at h ⊢
      rw [referencesAt_of_none (by simp only [statedTypes, hrole])]
      exact interactions_scriptAll cs hnests h (hinside (by simp only [isHiding, hrole]))
        (hnear (by simp only [isType, hrole])) hclass

theorem interactions_scriptAll {full : Table String} :
    ∀ (ts : List ParseTree) {above : List ParseTree} {w : Place}
    {source : Option String}, Java.allNest importsNames ts = true → Unbroken (scriptAll full w ts) →
    above.any isHiding = false → classAround full above = [source] → w.className = source.getD "" →
    (scriptAll full w ts).filterMap Request.interact? =
      ((spotsOf above ts).flatMap (referencesAt full)).map counted
  | [], _, _, _, _, _, _, _, _ => rfl
  | t :: ts, above, w, source, hnest, h, hopen, haround, hclass => by
    rw [Java.allNest, Bool.and_eq_true] at hnest
    rw [scriptAll] at h ⊢
    rw [spotsOf, List.filterMap_append, List.flatMap_append, List.map_append,
      interactions_script t hnest.1 h.left hopen haround hclass,
      interactions_scriptAll ts hnest.2 h.right hopen haround hclass]

end

theorem count_interact (rs : List Request) (p q : String) :
    rs.count (.interact p q) = (rs.filterMap Request.interact?).count (p, q) := by
  rw [List.count, List.count, List.countP_filterMap]
  refine List.countP_congr fun r _ => ?_
  cases r <;> simp [Request.interact?]

/-- Two different classes of the project. -/
structure Analyze.Apart (c : Setting) (p q : String) : Prop where
  ne : p ≠ q
  left : c.classes.contains p = true
  right : c.classes.contains q = true

namespace Profiler

/-! ## Projects a profiler knows -/

theorem classTable_absorb {file : String} {c : Collected} {s : Scene Profiler}
    (h : s.self.classes < s.shared.tables.size) :
    classTable (absorb file c s) = (classTable s).update c.classes := by
  unfold classTable absorb Shared.table
  simp only
  rw [Array.getElem?_modify, if_pos rfl, Array.getElem?_eq_getElem h]
  rfl

end Profiler

variable {registry : Registry} {file source : String} {tree : ParseTree} {c : Collected}
  {id : SymbolId}

section

variable (h : collect registry file source tree = .ok c)
include h

/-- The symbols of a collection are named as they stand, and depend on nothing yet. -/
theorem collect_symbols {name : String} (hid : (name, id) ∈ c.symbols.entries) :
    ∃ s, c.registry.get? id = some s ∧ s.fullName = name ∧ s.dependency = [] := by
  obtain ⟨d, hd, rfl, rfl⟩ := (collect_pass h).declared_of_symbol hid
  obtain ⟨-, s, hs, -, hdep, -⟩ := (collect_pass h).described hd
  exact ⟨s, hs, (Registry.fullName_of_get? hs).symm, hdep⟩

/-- The classes of a collection are named as they stand. -/
theorem collect_named {name : String} (hid : (name, id) ∈ c.classes.entries) :
    ∃ s, c.registry.get? id = some s ∧ s.fullName = name := by
  obtain ⟨d, hd, -, rfl, rfl⟩ := (collect_pass h).declared_of_class hid
  obtain ⟨-, s, hs, -⟩ := (collect_pass h).described hd
  exact ⟨s, hs, (Registry.fullName_of_get? hs).symm⟩

/-- A collection leaves the symbols that were there as they were. -/
theorem collect_old {s : Symbol} (hs : registry.get? id = some s) :
    c.registry.get? id = some s := by
  have hlt := Registry.lt_size_of_get? hs
  rw [(collect_pass h).old hlt hlt]
  exact hs

theorem collect_later : registry.Later c.registry :=
  fun _ s hs => ⟨s, collect_old h hs, rfl⟩

end

namespace Profiler

/-- The classes and symbols of a profiler are named as they stand. -/
structure Standing (s : Scene Profiler) : Prop where
  own : s.self.classes < s.shared.tables.size
  named : Named (classTable s) s.shared.registry
  symbols : Named s.self.symbols s.shared.registry

theorem Standing.consistent {s : Scene Profiler} (h : Standing s) (file source : String)
    (full : Table String) :
    Analyze.Consistent (setting file source full s) (analysis s) :=
  ⟨h.named, h.symbols⟩

theorem lasting_standing : Lasting Standing where
  onText _ _ _ h := { h with }
  onNumber _ h := { h with }
  onInherit _ _ h _ := { h with }
  onRead s file source full tree h := by
    let c := setting file source full s
    obtain ⟨hnamed, hsymbols⟩ :=
      Analyze.visit_keeps (Analyze.stable_consistent c) {} tree (analysis s)
        (h.consistent file source full)
    exact ⟨h.own, hnamed, hsymbols⟩
  onAbsorb s file source tree c h hc := by
    refine ⟨by simpa [absorb] using h.own, ?_, ?_⟩
    · rw [classTable_absorb h.own]
      exact h.named.update (collect_later hc) fun name id => collect_named hc
    · refine h.symbols.update (collect_later hc) fun name id hid => ?_
      obtain ⟨i, hi, hname, -⟩ := collect_symbols hc hid
      exact ⟨i, hi, hname⟩

/-- What is true of a project that a profiler knows: its classes and symbols are named as they
stand, and the matrix has a cell for any two names of the numbering, which are classes. -/
structure Sound (s : Scene Profiler) : Prop extends Standing s where
  ample : Ample s.shared.numbering s.self.matrix.isSome s.self.matrix
  numbered : s.self.matrix.isSome → ∀ name ∈ s.shared.numbering.names,
    (classTable s).contains name = true

theorem sound_opened (files : List String) (shared : Shared) : Sound (opened files shared) where
  own := by simp [opened, Profiler.new]
  named := by
    intro name id h
    simp [opened, Profiler.new, classTable, Shared.table] at h
  symbols := fun _ _ h => by cases h
  ample := ⟨rfl, fun m hm => by cases hm⟩
  numbered := fun h => by cases h

theorem lasting_sound : Lasting Sound where
  onText _ _ _ h := { h with }
  onAbsorb s file source tree c h hc := by
    refine ⟨lasting_standing.onAbsorb s file source tree c h.toStanding hc, h.ample,
      fun hm name hname => ?_⟩
    rw [classTable_absorb h.own]
    exact Table.contains_update.mpr (.inr (h.numbered hm name hname))
  onNumber s h := by
    refine { h with ample := ⟨rfl, fun m hm => ?_⟩, numbered := fun _ name hname =>
      Table.contains_iff_mem_keys.mpr hname }
    cases hm
    simpa [number, Table.keys, Table.size] using Matrix.covers_zero (classTable s).size
  onRead s file source full tree h := by
    let c := setting file source full s
    have hample := Analyze.visit_keeps (Analyze.stable_ample c s.self.matrix.isSome) {} tree
      (analysis s) h.ample
    refine ⟨lasting_standing.onRead s file source full tree h.toStanding, ⟨rfl, hample.covers⟩,
      fun hm => h.numbered ?_⟩
    rw [← hample.isSome]
    exact hm
  onInherit s matrix h hm := by
    have hample := hm s.self.matrix.isSome h.ample
    refine ⟨{ h.toStanding with }, ⟨rfl, hample.covers⟩, fun hsome => h.numbered ?_⟩
    rw [← hample.isSome]
    exact hsome

/-! ## Exact counts -/

/-- A reading of a tree counts the references that the tree states. -/
theorem Sound.cell_visit {s : Scene Profiler} (h : Sound s) {file source : String}
    {full : Table String}
    {tree : ParseTree} {a : Analysis} {p q : String}
    (hpq : Analyze.Apart (setting file source full s) p q) (hnest : tree.nests importsNames = true)
    (hvisit : (Analyze.visit (setting file source full s) {} tree).run.run (analysis s) =
      (.ok (), a)) :
    cell s.shared.numbering a.matrix p q =
      (cell s.shared.numbering s.self.matrix p q).map
        (· + Int64.ofNat (hits p q (references full tree))) := by
  rw [(h.consistent file source full).visit_eq tree] at hvisit
  have houtside : classAround full [] = [none] := rfl
  have hscript := interactions_script tree hnest (Analyze.unbroken_of_carryOut hvisit)
    rfl houtside rfl
  have hcounts := (Analyze.performed_of_carryOut hvisit).counts p q
  rwa [tally, if_pos ⟨hpq.ne, hpq.left, hpq.right⟩, count_interact, hscript, ← hits_eq_count]
    at hcounts

/-- **Exactness of the matrix.** Take any run of a profiler that has numbered its classes, and any
tree that the parser gives, or whose import declarations are made of names only as in these. If a
reading of the tree comes to its end, the count from one class to another has grown by the number of
references that the tree states between them -- and, for a class without a name, by those that are
stated outside every class. So it has grown by the first number alone just if the class has a name,
or nothing is stated outside. -/
theorem visit_counts_references (parse : Parser) (files : List String) (shared : Shared)
    (calls : List Call)
    (s : Scene Profiler) (file source : String) (full : Table String) (tree : ParseTree)
    (a : Analysis) (p q : String)
    (hs : s = after parse calls (opened files shared)) (hmatrix : s.self.matrix.isSome = true)
    (htree : (∃ text, tree = (Java.parse text).tree) ∨ tree.nests importsNames = true)
    (hvisit : (Analyze.visit (setting file source full s) {} tree).run.run
      (analysis s) = (.ok (), a))
    (hp : p ∈ s.shared.numbering.names) (hq : q ∈ s.shared.numbering.names) (hne : p ≠ q) :
    ∃ count grown, cell s.shared.numbering s.self.matrix p q = some count ∧
      cell s.shared.numbering a.matrix p q = some grown ∧
      grown = count + Int64.ofNat ((references full tree).count (some p, q) +
        if p = "" then (references full tree).count (none, q) else 0) ∧
      (grown = count + Int64.ofNat ((references full tree).count (some p, q)) ↔
        p ≠ "" ∨ Int64.ofNat ((references full tree).count (none, q)) = 0) := by
  have hsound : Sound s := by
    rw [hs]
    exact lasting_sound.after calls (sound_opened files shared)
  have hnest : tree.nests importsNames = true := by
    rcases htree with ⟨text, rfl⟩ | hnest
    · exact parse_importsNames text
    · exact hnest
  obtain ⟨m, hm⟩ := Option.isSome_iff_exists.mp hmatrix
  obtain ⟨count, hcount⟩ := exists_cell (hsound.ample.covers m hm) hp hq
  have hpq : Analyze.Apart (setting file source full s) p q :=
    ⟨hne, hsound.numbered hmatrix p hp, hsound.numbered hmatrix q hq⟩
  rw [← hm] at hcount
  refine ⟨count, _, hcount, ?_, rfl, ?_⟩
  · rw [hsound.cell_visit hpq hnest hvisit, hits_eq, hcount]
    rfl
  · by_cases hname : p = ""
    · simp [hname, Int64.ofNat_add]
    · simp [hname]

/-! ## Small projects -/

/-- A token that is read. -/
def leaf (kind : Kind) (text : String) : ParseTree := .token ⟨kind, text, .start, 0⟩

/-- A node of a rule. -/
def branch (rule : RuleName) (parts : List ParseTree) : ParseTree :=
  .node ⟨.rule rule, ⟨.eof, "", .start, 0⟩, some ⟨.eof, "", .start, 0⟩, []⟩ parts

def named (name : String) : ParseTree := branch .identifier [leaf .identifier name]

def packageOf (name : String) : ParseTree :=
  branch .packageDeclaration [leaf .kwPackage "package", branch .qualifiedName [named name],
    leaf .semi ";"]

def classNamed (name : ParseTree) (body : List ParseTree) : ParseTree :=
  branch .classDeclaration [leaf .kwClass "class", name, branch .classBody body]

def fieldOf (type : String) : ParseTree := branch .fieldDeclaration [branch .typeType [named type]]

/-- A parser that knows one tree for each of some texts. -/
def parserOf (trees : List (String × ParseTree)) : Parser := fun text =>
  ⟨((trees.find? fun t => t.1 == text).map (·.2)).getD (branch .compilationUnit []), [], [],
    ⟨.eof, "", .start, 0⟩⟩

/-- Such a parser gives trees of one kind, if those that it knows and the empty one are of that
kind. -/
theorem forall_parserOf {P : ParseTree → Prop} {trees : List (String × ParseTree)}
    (hempty : P (branch .compilationUnit [])) (h : ∀ t ∈ trees, P t.2) (text : String) :
    P (parserOf trees text).tree := by
  unfold parserOf
  cases hfind : trees.find? fun t => t.1 == text with
  | none => exact hempty
  | some t => exact h t (List.mem_of_find?_eq_some hfind)

/-- Two files: a class with two fields of another class, and that class. -/
def twoFields : ParseTree :=
  branch .compilationUnit [classNamed (named "A") [fieldOf "B", fieldOf "B"]]

def twoFieldsFiles : Files := ⟨[(["A.java"], .text "A"), (["B.java"], .text "B")]⟩

def twoFieldsParser : Parser :=
  parserOf [("A", twoFields), ("B", branch .compilationUnit [classNamed (named "B") []])]

def twoFieldsScene : Scene Profiler :=
  after twoFieldsParser [.collect twoFieldsFiles] (opened ["A.java", "B.java"] {})

/-- What the simple names of the files stand for. -/
def twoFieldsFull : Table String := ⟨[("A", "A"), ("B", "B")]⟩

/-- What is known after the file with the fields is read. -/
def twoFieldsRead : Except Fault Unit × Analysis :=
  (Analyze.visit (setting "A.java" "A" twoFieldsFull twoFieldsScene) {} twoFields).run.run
    (analysis twoFieldsScene)

/-- Both fields are counted. -/
theorem twoFields_counted :
    twoFieldsRead.1.toBool = true ∧ ∃ count,
      cell twoFieldsScene.shared.numbering twoFieldsScene.self.matrix "A" "B" = some count ∧
      cell twoFieldsScene.shared.numbering twoFieldsRead.2.matrix "A" "B" =
        some (count + Int64.ofNat 2) := by
  have hend : twoFieldsRead.1.toBool = true := by decide +kernel
  have hstated : (references twoFieldsFull twoFields).count (some "A", "B") = 2 := by decide +kernel
  obtain ⟨count, grown, hcount, hgrown, -, hexact⟩ :=
    visit_counts_references twoFieldsParser ["A.java", "B.java"] {}
    [.collect twoFieldsFiles] twoFieldsScene "A.java" "A" twoFieldsFull twoFields
      twoFieldsRead.2 "A" "B" rfl
    (by decide +kernel) (.inr (by decide +kernel)) (eq_ok_of_toBool hend) (by decide +kernel)
      (by decide +kernel)
    (by decide)
  refine ⟨hend, count, hcount, ?_⟩
  rw [hgrown, hexact.mpr (.inl (by decide)), hstated]

/-- Three files: a class without a name, a class of the package `java.lang`, and an enumeration with
a field of that class, which stands outside every class. -/
def outsideField : ParseTree :=
  branch .compilationUnit [packageOf "p", branch .enumDeclaration [leaf .kwEnum "enum", named "E",
    fieldOf "String"]]

def outsideFieldFiles : Files :=
  ⟨[(["A.java"], .text "A"), (["String.java"], .text "String"), (["E.java"], .text "E")]⟩

def outsideFieldParser : Parser :=
  parserOf [("A", branch .compilationUnit [classNamed (branch .identifier []) []]),
    ("String", branch .compilationUnit [packageOf "java.lang", classNamed (named "String") []]),
    ("E", outsideField)]

def outsideFieldScene : Scene Profiler :=
  after outsideFieldParser [.collect outsideFieldFiles]
    (opened ["A.java", "String.java", "E.java"] {})

/-- What the simple names of the file with the enumeration stand for. -/
def outsideFieldFull : Table String := (outsideFieldScene.self.full.get? "E.java").getD ∅

/-- What is known after the file with the enumeration is read. -/
def outsideFieldRead : Except Fault Unit × Analysis :=
  (Analyze.visit (setting "E.java" "E" outsideFieldFull outsideFieldScene) {} outsideField).run.run
    (analysis outsideFieldScene)

/-- A reference that stands outside every class is counted for the class without a name, although
the tree states no reference from that class. -/
theorem nameless_class_counts_outside :
    outsideFieldRead.1.toBool = true ∧
      (references outsideFieldFull outsideField).count (some "", "java.lang.String") = 0 ∧
      cell outsideFieldScene.shared.numbering outsideFieldScene.self.matrix "" "java.lang.String" =
        some 0 ∧
      cell outsideFieldScene.shared.numbering outsideFieldRead.2.matrix "" "java.lang.String" =
        some 1 := by
  decide +kernel

end Profiler

end Coupling.Project
