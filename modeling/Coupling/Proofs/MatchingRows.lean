import Coupling.Proofs.Profiles
import Coupling.Proofs.TwoReadings
import Coupling.Proofs.TypeTexts

/-!
# Matching rows

The classes of a project are counted twice: a profiler numbers them as it finds them in its table,
and their texts stand in the order in which they were read. The two have nothing in common but the
files. In a project of flat files in which no two classes or interfaces have the same full name, the
text at a place is that of the class with this number (`texts_match_rows`).

What both follow is the listing of a tree: the names of its classes and interfaces, in the order of
the tree.
-/

namespace Coupling.Project

open Java (ParseTree NodeInfo)
open Collect (visit)
open Steps

/-! ## What a flat file lists -/

mutual

/-- Where no class or interface is declared, only methods are. -/
theorem kind_of_typeFree : ∀ (t : ParseTree) (scope : Option SymbolId) (next : Nat),
    typeFree t = true →
    ∀ d ∈ declarations (outline scope next t), d.kind = .method
  | .token _, _, _, _, _, hd | .skipped _, _, _, _, _, hd | .missing _, _, _, _, _,
    hd => by cases hd
  | .node info cs, scope, next, h, d, hd => by
    rw [typeFree] at h
    rw [outline] at hd
    cases hrole : Role.ofForm info.form with
    | type kind =>
      rw [hrole] at h
      cases h
    | package | «import» =>
      rw [hrole] at hd
      cases hd
    | method =>
      rw [hrole] at h hd
      rcases List.mem_cons.mp hd with rfl | hd
      · rfl
      · exact kind_of_allTypeFree cs _ _ h d hd
    | field | other =>
      rw [hrole] at h hd
      exact kind_of_allTypeFree cs _ _ h d hd

theorem kind_of_allTypeFree : ∀ (ts : List ParseTree) (scope : Option SymbolId) (next : Nat),
    allTypeFree ts = true →
    ∀ d ∈ declarations (outlineOf scope next ts), d.kind = .method
  | [], _, _, _, _, hd => by cases hd
  | t :: ts, scope, next, h, d, hd => by
    obtain ⟨ht, hts⟩ := Bool.and_eq_true_iff.mp h
    rw [outlineOf, declarations, List.filterMap_append] at hd
    rcases List.mem_append.mp hd with hd | hd
    · exact kind_of_typeFree t scope next ht d hd
    · exact kind_of_allTypeFree ts scope _ hts d hd

end

/-- The classes and interfaces among declarations. -/
def typesAmong (ds : List Declaration) : List Declaration := ds.filter fun d => d.kind ≠ .method

theorem typesAmong_of_allTypeFree {ts : List ParseTree} (h : allTypeFree ts = true)
    (scope : Option SymbolId)
    (next : Nat) : typesAmong (declarations (outlineOf scope next ts)) = [] := by
  refine List.filter_eq_nil_iff.mpr fun d hd => ?_
  rw [kind_of_allTypeFree ts scope next h d hd]
  decide

mutual

/-- The classes and interfaces of a flat tree are declared in the scope of the tree. -/
theorem types_outline : ∀ (t : ParseTree) (scope : Option SymbolId) (next : Nat), flat t = true →
    (typesAmong (declarations (outline scope next t))).map (fun d => (d.node, d.scope)) =
      (typeNodes t).map fun n => (n, scope)
  | .token _, _, _, _ | .skipped _, _, _, _ | .missing _, _, _, _ => rfl
  | .node info cs, scope, next, h => by
    rw [flat] at h
    rw [outline, typeNodes]
    cases hrole : Role.ofForm info.form with
    | type kind =>
      rw [hrole] at h
      have hself (ds : List Declaration) : typesAmong (⟨kind, info, cs, scope, next⟩ :: ds) =
          ⟨kind, info, cs, scope, next⟩ :: typesAmong ds :=
        List.filter_cons_of_pos (decide_eq_true (Collect.kind_ne_method hrole))
      show (typesAmong (_ :: declarations (outlineOf (some next) (next + 1) cs))).map _ = _
      rw [hself, typesAmong_of_allTypeFree h]
      rfl
    | package | «import» => rfl
    | method =>
      rw [hrole] at h
      exact congrArg (List.map _) (typesAmong_of_allTypeFree h (some next) (next + 1))
    | field | other =>
      rw [hrole] at h
      exact types_outlineOf cs scope next h

theorem types_outlineOf : ∀ (ts : List ParseTree) (scope : Option SymbolId) (next : Nat),
    allFlat ts = true →
    (typesAmong (declarations (outlineOf scope next ts))).map (fun d => (d.node, d.scope)) =
      (typeNodesOf ts).map fun n => (n, scope)
  | [], _, _, _ => rfl
  | t :: ts, scope, next, h => by
    obtain ⟨ht, hts⟩ := Bool.and_eq_true_iff.mp h
    have hsplit (xs ys : List Item) : typesAmong (declarations (xs ++ ys)) =
        typesAmong (declarations xs) ++ typesAmong (declarations ys) := by
      unfold declarations typesAmong
      rw [List.filterMap_append, List.filter_append]
    rw [outlineOf, typeNodesOf, hsplit, List.map_append, List.map_append,
      types_outline t scope next ht, types_outlineOf ts scope _ hts]

end

/-- The full and the simple names of the classes and interfaces of a flat tree, in order. -/
def listing (tree : ParseTree) : List (String × String) :=
  (typeNodes tree).map fun t => (nameIn (packageAfter "" tree) none (nameGiven t), nameGiven t)

section Listing

variable {registry : Registry} {file source : String} {tree : ParseTree} {c c' : Collected}

theorem listing_eq (hflat : flat tree = true) : listing tree =
    (typesAmong (declared tree)).map fun d =>
    (nameIn (packageAfter "" tree) none d.typeName, d.typeName) := by
  have hnodes : (typesAmong (declared tree)).map Declaration.node = typeNodes tree := by
    have h := congrArg (List.map Prod.fst) (types_outline tree none 0 hflat)
    rw [List.map_map, List.map_map] at h
    exact h.trans (List.map_id _)
  rw [listing, ← hnodes, List.map_map]
  rfl

theorem scope_of_flat (hflat : flat tree = true) {d : Declaration}
    (hd : d ∈ typesAmong (declared tree)) :
    d.scope = none := by
  have hmem : (d.node, d.scope) ∈ (typesAmong (declared tree)).map fun d => (d.node, d.scope) :=
    List.mem_map_of_mem hd
  rw [declared, types_outline tree none 0 hflat] at hmem
  obtain ⟨n, -, heq⟩ := List.mem_map.mp hmem
  exact (Prod.mk.inj heq).2.symm

/-- In a flat file a class or interface has its full name from the package alone. -/
theorem classes_of_flat (hheads : HeadsFirst tree) (hflat : flat tree = true)
    (h : (visit file source none tree).run c = .ok ((), c'))
    (hpackage : packageAfter c.package tree = packageAfter "" tree) :
    c'.classes = c.classes.update ⟨(typesAmong (declared tree)).map fun d =>
      (nameIn (packageAfter "" tree) none d.typeName, d.id + c.registry.size)⟩ := by
  rw [classes_of_reading hheads h]
  refine congrArg (fun es => c.classes.update ⟨es⟩) (List.map_congr_left fun d hd => ?_)
  obtain ⟨hdeclared, hkind⟩ := List.mem_filter.mp hd
  rw [Collect.named_of_visit hheads h d hdeclared, hpackage, scope_of_flat hflat hd,
    shortName_type hheads h hdeclared (of_decide_eq_true hkind)]
  rfl

/-- The classes that are collected from a flat file are those of its listing, in order. -/
theorem classes_of_collect (hheads : HeadsFirst tree) (hflat : flat tree = true)
    (hnodup : ((listing tree).map (·.1)).Nodup) (h : collect registry file source tree = .ok c) :
    (c.classes.entries.map fun e => (e.1, c.registry.shortName e.2)) = listing tree := by
  obtain ⟨c₁, h₁, h₂⟩ := collect_visits h
  have hpackage : packageAfter c₁.package tree = packageAfter "" tree := by
    rw [package_of_visit hheads h₁, packageAfter_packageAfter]
  have hnames : ((typesAmong (declared tree)).map fun d =>
      nameIn (packageAfter "" tree) none d.typeName).Nodup := by
    rwa [listing_eq hflat, List.map_map] at hnodup
  -- The second reading puts the same names again, with the numbers of the second symbols.
  rw [classes_of_flat hheads hflat h₂ hpackage, classes_of_flat hheads hflat h₁ rfl,
    show ({ registry } : Collected).classes = ∅ from rfl, Table.entries_update_update hnames,
    listing_eq hflat, List.map_map]
  refine List.map_congr_left fun d hd => ?_
  obtain ⟨hdeclared, hkind⟩ := List.mem_filter.mp hd
  exact congrArg (Prod.mk _) (shortName_type hheads h₂ hdeclared (of_decide_eq_true hkind))

end Listing

/-! ## The classes of a project -/

namespace Profiler

variable {parse : Parser} {fs : Files} {files : List String} {shared : Shared} {s : Scene Profiler}

/-- The trees of the files that can be collected. -/
def trees (parse : Parser) (fs : Files) (files : List String) : List ParseTree :=
  (files.filterMap (alone parse fs)).map (·.tree)

theorem trees_cons {file : String} {x : Collection} (h : alone parse fs file = some x)
    (files : List String) :
    trees parse fs (file :: files) = x.tree :: trees parse fs files := by
  rw [trees, List.filterMap_cons_some h]
  rfl

theorem trees_collections (h : ∀ file ∈ files, collects parse fs file = true) (r : Registry) :
    (collections parse fs files r).map (·.tree) = trees parse fs files := by
  rw [collections_eq_placed h, trees]
  generalize files.filterMap (alone parse fs) = xs
  induction xs generalizing r with
  | nil => rfl
  | cons x xs ih => exact congrArg (List.cons x.tree) (ih _)

/-- What is collected last keeps the simple names of what was collected. -/
theorem Gathered.shortName {xs : List Collection} {s₀ : Scene Profiler} (h : Gathered xs s₀ s)
    {x : Collection}
    (hx : x ∈ xs) (hmade : x.Made parse fs) {e : String × SymbolId}
    (he : e ∈ x.after.classes.entries) :
    s.shared.registry.shortName e.2 = x.after.registry.shortName e.2 := by
  have hget : x.after.classes.get? e.1 = some e.2 :=
    (Table.mem_entries_iff hmade.nodup_classes).mp he
  obtain ⟨o, ho⟩ := Registry.exists_get? ((reached_of_collect hmade.collected).mem_range
    (.inl hget)).2
  rw [Registry.shortName_of_get? ho, Registry.shortName_of_get? (h.kept x hx _ _ ho)]

/-- The class table of a project of flat files is the listing of all files. -/
theorem classTable_of_flat {xs : List Collection} (hgathered : Gathered xs (opened files shared) s)
    (hmade : ∀ x ∈ xs, x.Made parse fs) (hheads : ∀ x ∈ xs, HeadsFirst x.tree)
    (hflat : ∀ x ∈ xs, flat x.tree = true)
    (hnodup : ((xs.flatMap fun x => listing x.tree).map (·.1)).Nodup) :
    ((classTable s).entries.map fun e => (e.1, s.shared.registry.shortName e.2)) =
      xs.flatMap fun x => listing x.tree := by
  rw [List.map_flatMap] at hnodup
  have hone (x : Collection) (hx : x ∈ xs) :
      (x.after.classes.entries.map fun e => (e.1, x.after.registry.shortName e.2)) =
        listing x.tree :=
    classes_of_collect (hheads x hx) (hflat x hx) ((List.nodup_flatMap.mp hnodup).1 x hx)
      (hmade x hx).collected
  have hkeys (x : Collection) (hx : x ∈ xs) : x.after.classes.keys =
      (listing x.tree).map (·.1) := by
    rw [← hone x hx, List.map_map]
    rfl
  have hapart : ((xs.map fun x => x.after.classes).flatMap Table.keys).Nodup := by
    rw [List.flatMap_map, List.flatMap_congr hkeys]
    exact hnodup
  rw [hgathered.classTable, classes_opened, Table.entries_updateAll_of_nodup (t := ∅) hapart]
  show ((xs.map fun x => x.after.classes).flatMap Table.entries).map _ = _
  rw [List.flatMap_map, List.map_flatMap]
  refine List.flatMap_congr fun x hx => ?_
  rw [← hone x hx]
  exact List.map_congr_left fun e he => by rw [hgathered.shortName hx (hmade x hx) he]

end Profiler

/-! ## The texts of a project -/

/-- The texts of a tree, and none if they cannot be told. -/
def textsOf (tree : ParseTree) : List String :=
  match classTexts tree with
  | .ok c => c.texts
  | .error _ => []

namespace TermTexts

open Profiler (trees trees_cons collects alone exists_alone collect_of_alone)

variable {parse : Parser} {fs : Files} {files : List String}

/-- If the texts of all files can be told, they are added one after the other, and nothing is
printed. -/
theorem run_addFiles (hcollects : ∀ file ∈ files, collects parse fs file = true)
    (htexts : ∀ tree ∈ trees parse fs files, (classTexts tree).toBool = true)
    (stopWords : List String) (stemmer : String → String) (t : Scene TermTexts) :
    ∃ t', (files.forM (addFile parse fs stopWords stemmer)).run.run t = (.ok (), t') ∧
      t'.self.texts = t.self.texts ++
        ((trees parse fs files).flatMap textsOf).map (Words.reduce stopWords · stemmer) ∧
      t'.shared.printed = t.shared.printed := by
  induction files generalizing t with
  | nil => exact ⟨t, rfl, (List.append_nil _).symm, rfl⟩
  | cons file files ih =>
    obtain ⟨x, hx⟩ := exists_alone (hcollects file List.mem_cons_self)
    obtain ⟨hread, htree, -⟩ := collect_of_alone hx .empty
    rw [trees_cons hx] at htexts ⊢
    obtain ⟨hhead, hrest⟩ := List.forall_mem_cons.mp htexts
    obtain ⟨c, hc⟩ := exists_of_toBool hhead
    have hrun : ∃ t₁, (addFile parse fs stopWords stemmer file).run.run t = (.ok (), t₁) ∧
        t₁.self.texts = t.self.texts ++ c.texts.map (Words.reduce stopWords · stemmer) ∧
        t₁.shared.printed = t.shared.printed := by
      obtain ⟨complained, hparsed⟩ := Profiler.run_parsed parse x.source t
      unfold addFile
      rw [run_bind, run_liftExcept, hread]
      simp only [run_bind, hparsed, ← htree, hc]
      exact ⟨_, rfl, rfl, rfl⟩
    obtain ⟨t₁, hrun₁, htexts₁, hprinted₁⟩ := hrun
    obtain ⟨t', hrun', htexts', hprinted'⟩ :=
      ih (fun f hf => hcollects f (List.mem_cons_of_mem _ hf)) hrest t₁
    have htextsOf : textsOf x.tree = c.texts := by rw [textsOf, hc]
    refine ⟨t', forM_cons_eq_ok.mpr ⟨t₁, hrun₁, hrun'⟩, ?_, hprinted'.trans hprinted₁⟩
    rw [htexts', htexts₁, List.flatMap_cons, List.map_append, htextsOf, List.append_assoc]

end TermTexts

/-- Each text of flat trees begins with the simple name that the listing has at its place. -/
theorem texts_of_listing {ts : List ParseTree} (hflat : ∀ t ∈ ts, flat t = true)
    (htexts : ∀ t ∈ ts, (classTexts t).toBool = true) :
    List.Forall₂ (fun e text => BeginsWith e.2 text) (ts.flatMap listing) (ts.flatMap textsOf) := by
  induction ts with
  | nil => exact .nil
  | cons t ts ih =>
    obtain ⟨hflat₁, hflat₂⟩ := List.forall_mem_cons.mp hflat
    obtain ⟨htexts₁, htexts₂⟩ := List.forall_mem_cons.mp htexts
    obtain ⟨c, hc⟩ := exists_of_toBool htexts₁
    have hone : List.Forall₂ (fun e text => BeginsWith e.2 text) (listing t) (textsOf t) := by
      rw [listing, textsOf, hc, List.forall₂_map_left_iff]
      exact texts_of_classTexts hflat₁ hc
    rw [List.flatMap_cons, List.flatMap_cons]
    exact List.rel_append hone (ih hflat₂ htexts₂)

/-! ## Both together -/

namespace Profiler

variable {parse : Parser} {fs : Files} {files : List String}

/-- **Texts and rows are of the same classes.** Take files that can all be collected and whose texts
can all be told, in which no class or interface is declared inside another one or inside a method,
as when all stand at the top level, and no two have the same full name. Then both the collection of
the classes and that of the texts come to their end and print nothing; there are as many texts as
classes; and the text at a place, before it is reduced to its terms, begins with the words of the
simple name of the class at this place of the class table, whose row in the matrix has this
number. -/
theorem texts_match_rows (hparse : parse = Java.parse ∨ ∀ text, HeadsFirst (parse text).tree)
    (hcollects : ∀ file ∈ files, collects parse fs file = true)
    (htexts : ∀ tree ∈ trees parse fs files, (classTexts tree).toBool = true)
    (hflat : ∀ tree ∈ trees parse fs files, flat tree = true)
    (hdistinct : (((trees parse fs files).flatMap listing).map (·.1)).Nodup)
    (stopWords : List String) (stemmer : String → String) (shared shared' : Shared) :
    ∃ s t, (collectAll parse fs).run.run (opened files shared) = (.ok (), s) ∧
      (TermTexts.addAll parse fs stopWords stemmer).run.run ⟨{ files }, shared'⟩ = (.ok (), t) ∧
      s.shared.printed = shared.printed ∧ t.shared.printed = shared'.printed ∧
      t.self.texts = ((trees parse fs files).flatMap textsOf).map
        (Words.reduce stopWords · stemmer) ∧
      ((trees parse fs files).flatMap textsOf).length = (classTable s).size ∧
      ∀ k name id, (classTable s).entries[k]? = some (name, id) →
        s.shared.numbering.index? name = some k ∧
        ∃ text, ((trees parse fs files).flatMap textsOf)[k]? = some text ∧
          BeginsWith (s.shared.registry.shortName id) text := by
  have hheads (text : String) : HeadsFirst (parse text).tree := by
    rcases hparse with rfl | hheads
    · exact (parse_regular text).headsFirst
    · exact hheads text
  obtain ⟨s₀, hfiles, -, hprinted⟩ := registry_collectFiles (s := opened files shared) hcollects
  have hrun : (collectAll parse fs).run.run (opened files shared) = (.ok (), number s₀) := by
    have hself : (opened files shared).self.files = files := rfl
    unfold collectAll Action.self
    simp only [bind_assoc, pure_bind, run_bind, run_get, hself, hfiles, run_modify]
  obtain ⟨t₀, hadd, hadded, hprinted'⟩ := TermTexts.run_addFiles hcollects htexts stopWords stemmer
    ⟨{ files }, shared'⟩
  have hrun' : (TermTexts.addAll parse fs stopWords stemmer).run.run ⟨{ files }, shared'⟩ =
      (.ok (), { t₀ with self := { t₀.self with ready := true } }) := by
    unfold TermTexts.addAll Action.self Action.change
    simp only [bind_assoc, pure_bind, run_bind, run_get, hadd, run_modify]
  -- Both lists follow the listing of the trees.
  have hgathered := collectFiles_gathered files (sound_opened files shared).own hfiles
  have htrees := trees_collections hcollects (opened files shared).shared.registry
  have hmem {x : Collection}
      (hx : x ∈ collections parse fs files (opened files shared).shared.registry) :
      x.tree ∈ trees parse fs files := htrees ▸ List.mem_map_of_mem hx
  have hlisting : ((classTable s₀).entries.map fun e => (e.1, s₀.shared.registry.shortName e.2)) =
      (trees parse fs files).flatMap listing := by
    rw [← htrees, List.flatMap_map] at hdistinct ⊢
    exact classTable_of_flat hgathered (fun x hx => made_of_mem hx)
      (fun x hx => (made_of_mem hx).parsed ▸ hheads x.source)
        (fun x hx => hflat _ (hmem hx)) hdistinct
  have hkeys : (classTable s₀).keys.Nodup := by
    rw [← hlisting, List.map_map] at hdistinct
    exact hdistinct
  have hall := texts_of_listing hflat htexts
  rw [← hlisting, List.forall₂_map_left_iff] at hall
  refine ⟨number s₀, _, hrun, hrun', hprinted, hprinted', hadded, hall.length_eq.symm,
    fun k name id hk => ?_⟩
  obtain ⟨hlt, hget⟩ := List.getElem?_eq_some_iff.mp
    (show (classTable s₀).entries[k]? = some (name, id) from hk)
  have hname : (classTable s₀).keys[k]? = some name := by
    unfold Table.keys
    rw [List.getElem?_map, List.getElem?_eq_getElem hlt, hget]
    rfl
  have hlt' : k < ((trees parse fs files).flatMap textsOf).length := hall.length_eq ▸ hlt
  have htext := hall.get hlt hlt'
  rw [List.get_eq_getElem, hget] at htext
  exact ⟨Numbering.index?_of_nodup hkeys hname, _, List.getElem?_eq_getElem hlt', htext⟩

/-- Two files: a class with a method, an enumeration, and an interface; and another class. -/
def storeTrees : List (String × ParseTree) :=
  [("A", branch .compilationUnit [packageOf "q",
      branch .typeDeclaration [classNamed (named "FileReader") [methodNamed "openAll" []]],
      branch .typeDeclaration [branch .enumDeclaration [leaf .kwEnum "enum", named "Mode",
        branch .enumConstants [branch .enumConstant [named "Fast"]]]],
      branch .typeDeclaration [branch .interfaceDeclaration [leaf .kwInterface "interface",
        named "Store", branch .interfaceBody []]]]),
    ("B", branch .compilationUnit [branch .typeDeclaration [classNamed (named "Writer") []]])]

def storeFiles : Files := ⟨[(["A.java"], .text "A"), (["B.java"], .text "B")]⟩

/-- The classes and the interface are listed and have their texts in the same order; the enumeration
has none. -/
theorem storeFiles_match :
    (∀ tree ∈ trees (parserOf storeTrees) storeFiles ["A.java", "B.java"], flat tree = true) ∧
    (trees (parserOf storeTrees) storeFiles ["A.java", "B.java"]).flatMap listing =
      [("q.FileReader", "FileReader"), ("q.Store", "Store"), ("Writer", "Writer")] ∧
    (trees (parserOf storeTrees) storeFiles ["A.java", "B.java"]).flatMap textsOf =
      ["file reader open all", "store", "writer"] ∧
    ∃ s t, (collectAll (parserOf storeTrees) storeFiles).run.run (opened ["A.java", "B.java"] {}) =
      (.ok (), s) ∧
      (TermTexts.addAll (parserOf storeTrees) storeFiles []).run.run
        ⟨{ files := ["A.java", "B.java"] }, {}⟩ =
        (.ok (), t) ∧
      (classTable s).size = 3 ∧
      ∀ k name id, (classTable s).entries[k]? = some (name, id) →
        s.shared.numbering.index? name = some k ∧
        ∃ text, ["file reader open all", "store", "writer"][k]? = some text ∧
          BeginsWith (s.shared.registry.shortName id) text := by
  have hheads : ∀ t ∈ storeTrees, HeadsFirst t.2 := by decide +kernel
  have hcollects : ∀ file ∈ ["A.java", "B.java"], collects (parserOf storeTrees) storeFiles file =
      true := by
    decide +kernel
  have htexts : ∀ tree ∈ trees (parserOf storeTrees) storeFiles ["A.java", "B.java"],
      (classTexts tree).toBool = true := by decide +kernel
  have hflat : ∀ tree ∈ trees (parserOf storeTrees) storeFiles ["A.java", "B.java"],
      flat tree = true := by
    decide +kernel
  have hlisting : (trees (parserOf storeTrees) storeFiles ["A.java", "B.java"]).flatMap listing =
      [("q.FileReader", "FileReader"), ("q.Store", "Store"), ("Writer", "Writer")] := by
        decide +kernel
  have htextsOf : (trees (parserOf storeTrees) storeFiles ["A.java", "B.java"]).flatMap textsOf =
      ["file reader open all", "store", "writer"] := by decide +kernel
  obtain ⟨s, t, hrun, hrun', -, -, -, hsize, hrows⟩ := texts_match_rows
    (.inr (forall_parserOf (by decide +kernel) hheads)) hcollects htexts hflat
      (by rw [hlisting]; decide) []
    Words.stem {} {}
  rw [htextsOf] at hsize hrows
  exact ⟨hflat, hlisting, htextsOf, s, t, hrun, hrun', hsize.symm, hrows⟩

end Profiler

end Coupling.Project
