import Coupling.Proofs.FileOrder
import Coupling.Proofs.Notes

/-!
# Spellings that count

A type is cut at its signs into simple names, and a simple name stands for what the file says: for a
name of `java.lang`, for an import, or for a declaration of the file (`Collection.Binds`). What the
file does not say, it does not know: a class of the same package in another file has to be imported,
the parts of a qualified name are looked up one by one, and a type variable or a wildcard stands for
nothing. The reading of an orderly file (`Collection.Orderly`) comes to its end just if it knows
what all its simple names stand for (`Collection.Readable.granted_eq_iff_understood`). For a project
of such files this says when no analysis is given up, and then all dependencies and all cells can be
read off the trees (`Profiler.bound_spellings_count`).
-/

namespace Coupling.Project

open Java (ParseTree)

/-! ## Files in a package -/

/-- The name in a package declaration. -/
def packageName (t : ParseTree) : String := ((t.first? .qualifiedName).map ParseTree.text).getD ""

mutual

/-- The names in the package declarations of a tree. -/
def packageNames : ParseTree → List String
  | .node info cs =>
    match Role.ofForm info.form with
    | .package => [packageName (.node info cs)]
    | .import => []
    | _ => packageNamesOf cs
  | _ => []

def packageNamesOf : List ParseTree → List String
  | [] => []
  | t :: ts => packageNames t ++ packageNamesOf ts

end

/-- The name in a package declaration of an outline. -/
def Item.package? : Item → Option String
  | .package t => some (packageName t)
  | _ => none

mutual

/-- The package declarations of an outline are those of the tree. -/
theorem packages_outline : ∀ (t : ParseTree) (scope : Option SymbolId) (next : Nat),
    (outline scope next t).filterMap Item.package? = packageNames t
  | .token _, _, _ | .skipped _, _, _ | .missing _, _, _ => rfl
  | .node info cs, scope, next => by
    rw [outline, packageNames]
    cases Role.ofForm info.form with
    | package | «import» => rfl
    | type kind | method => exact packages_outlineOf cs (some next) (next + 1)
    | field | other => exact packages_outlineOf cs scope next

theorem packages_outlineOf : ∀ (ts : List ParseTree) (scope : Option SymbolId) (next : Nat),
    (outlineOf scope next ts).filterMap Item.package? = packageNamesOf ts
  | [], _, _ => rfl
  | t :: ts, scope, next => by
    rw [outlineOf, packageNamesOf, List.filterMap_append, packages_outline t, packages_outlineOf ts]

end

/-- A tree has a package declaration, and none without a name. -/
def Packaged (tree : ParseTree) : Prop := packageNames tree ≠ [] ∧ "" ∉ packageNames tree

instance (tree : ParseTree) : Decidable (Packaged tree) := inferInstanceAs (Decidable (_ ∧ _))

theorem dot_mem_nameIn {package : String} (hpackage : package ≠ "") (scope : Option String)
    (name : String) :
    '.' ∈ (nameIn package scope name).toList := by
  cases scope with
  | some s => simp [nameIn]
  | none =>
    have hne : package.isEmpty = false := by simpa using hpackage
    simp [nameIn, hne]

namespace Collect

variable {file source : String} {c c' : Collected}

theorem package_of_take {t : ParseTree} (h : (take file source (.package t)).run c = .ok ((), c')) :
    c'.package = packageName t := by
  unfold take enterPackage at h
  obtain ⟨name, c₁, hname, h₁⟩ := bind_eq_ok.mp h
  obtain ⟨⟨q, hq, rfl⟩, rfl⟩ := textOf_eq_ok hname
  cases h₁
  rw [packageName, hq]
  rfl

theorem package_declare (c : Collected) (d : Declaration) (s : Symbol) :
    (c.declare d s).package = c.package := by
  unfold Collected.declare
  split <;> rfl

/-- What is declared in a package has a dot in its full name. -/
theorem dot_mem_of_takeAll {start : Nat} {items : List Item}
    (hitems : Ordered start c.registry.size items)
    (h : (items.forM (take file source)).run c = .ok ((), c'))
    (hnames : "" ∉ items.filterMap Item.package?)
    (hstart : c.package ≠ "" ∨ ∃ pre t post, items = pre ++ .package t :: post ∧
      declarations pre = []) :
    ∀ d ∈ declarations items, '.' ∈ (c'.registry.fullName d.id).toList := by
  induction items generalizing c with
  | nil => exact fun d hd => by cases hd
  | cons item items ih =>
    obtain ⟨c₁, h₁, h₂⟩ := takeAll_cons_eq_ok h
    cases item with
    | package t =>
      have hpackage := package_of_take h₁
      rw [List.filterMap_cons_some (f := Item.package?) rfl, List.mem_cons, not_or] at hnames
      obtain ⟨name, rfl⟩ := take_package h₁
      refine ih ?_ h₂ hnames.2 (.inl fun hempty => hnames.1 (hempty.symm.trans hpackage))
      exact hitems
    | «import» t =>
      have hc := take_import h₁
      subst hc
      refine ih ?_ h₂ hnames (hstart.imp id ?_)
      · exact hitems
      · rintro ⟨_ | ⟨_, pre⟩, t', post, heq, hnone⟩
        · cases heq
        · cases heq
          exact ⟨pre, t', post, rfl, hnone⟩
    | declaration d =>
      have hpackage : c.package ≠ "" := by
        rcases hstart with hpackage | ⟨_ | ⟨_, pre⟩, t', post, heq, hnone⟩
        · exact hpackage
        · cases heq
        · cases heq
          cases hnone
      obtain ⟨s, hs, rfl⟩ := take_declaration h₁
      have hrest : Ordered start (c.declare d s).registry.size items := by
        rw [size_declare]
        exact hitems.2.2
      intro d' hd'
      rcases List.mem_cons.mp (show d' ∈ d :: declarations items from hd') with rfl | hmem
      · rw [hitems.1, ((pass_of_takeAll file source hrest h₂).names_declare).1, hs.fullName]
        exact dot_mem_nameIn hpackage _ _
      · exact ih hrest h₂ hnames (.inl (by rwa [package_declare])) d' hmem

end Collect

/-- In a file with a package declaration, and heads first, no declaration comes before a package
declaration. -/
theorem exists_package {tree : ParseTree} (hheads : HeadsFirst tree)
    (hpackage : packageNames tree ≠ []) (scope : Option SymbolId) (next : Nat) :
    ∃ pre t post, outline scope next tree = pre ++ .package t :: post ∧ declarations pre = [] := by
  rw [← packages_outline tree scope next] at hpackage
  obtain ⟨name, hname⟩ := List.exists_mem_of_ne_nil _ hpackage
  obtain ⟨item, hitem, hpackage⟩ := List.mem_filterMap.mp hname
  obtain ⟨t, rfl⟩ : ∃ t, item = .package t := by
    cases item with
    | package t => exact ⟨t, rfl⟩
    | _ => cases hpackage
  obtain ⟨pre, post, hsplit⟩ := List.append_of_mem hitem
  have hsorted := List.Pairwise.sublist (outline_sublist tree scope next) hheads
  rw [hsplit, List.map_append, List.map_cons] at hsorted
  refine ⟨pre, t, post, hsplit, List.filterMap_eq_nil_iff.mpr fun item hitem => ?_⟩
  have hhead : item.isHead = true :=
    (List.pairwise_append.mp hsorted).2.2 _ (List.mem_map_of_mem hitem) _ List.mem_cons_self rfl
  cases item with
  | declaration d => cases hhead
  | _ => rfl

namespace Collection

variable {parse : Parser} {fs : Files} {x : Collection}

/-- The symbols of a file in a package have dots in their full names. -/
theorem Made.dot_mem (h : x.Made parse fs) (hheads : HeadsFirst x.tree)
    (hpackaged : Packaged x.tree) {name : String}
    (hname : x.after.symbols.contains name = true) : '.' ∈ name.toList := by
  rw [h.pass.symbols_eq, Table.contains_update] at hname
  rcases hname with hmem | hnone
  · rw [List.map_map] at hmem
    obtain ⟨d, hd, rfl⟩ := List.mem_map.mp hmem
    refine Collect.dot_mem_of_takeAll (c := { registry := x.before })
      (outlines_ordered x.before x.tree)
      (collect_takeAll h.collected) ?_ (.inr ?_) d hd
    · rw [List.filterMap_append, firstOutline, secondOutline, packages_outline, packages_outline,
        List.mem_append, or_self]
      exact hpackaged.2
    · obtain ⟨pre, t, post, hsplit, hnone⟩ := exists_package hheads hpackaged.1 none x.before.size
      refine ⟨pre, t, post ++ secondOutline x.before x.tree, ?_, hnone⟩
      rw [firstOutline, hsplit, List.append_assoc, List.cons_append]
  · cases hnone

/-! ## Names that a file knows -/

/-- A file says what a simple name stands for: it is a name of `java.lang`, the last part of an
import, or the name of a declaration. -/
def Binds (x : Collection) (w : String) : Prop :=
  w ∈ javaLangNames ∨ w ∈ (importNames x.tree).map (Text.afterLast · '.') ∨
    w ∈ (declarations x.readings).map (x.after.registry.shortName ·.id)

instance (x : Collection) (w : String) : Decidable (x.Binds w) :=
  inferInstanceAs (Decidable (_ ∨ _))

theorem Made.contains_of_binding (h : x.Made parse fs) {item : Item} (hitem : item ∈ x.readings)
    {e : String × String}
    (he : e ∈ Pass.bindings x.after.registry item) : x.after.full.contains e.1 = true := by
  rw [h.pass.full_eq, Table.contains_update]
  exact .inl (List.mem_map_of_mem (List.mem_flatMap.mpr ⟨item, hitem, he⟩))

/-- In a file with a package declaration, these are the names that are known. -/
theorem Made.contains_full (h : x.Made parse fs) (hpackage : packageNames x.tree ≠ [])
    (w : String) :
    x.after.full.contains w = true ↔ x.Binds w := by
  constructor
  · intro hknown
    obtain ⟨name, hname⟩ := Table.contains_iff_exists.mp hknown
    rcases bound_cases h.collected hname with hlang | ⟨d, hd, rfl, -⟩ | ⟨himport, rfl⟩
    · obtain ⟨n, hn, heq⟩ := List.mem_map.mp hlang
      exact .inl ((Prod.mk.inj heq).1 ▸ hn)
    · exact .inr (.inr (List.mem_map_of_mem hd))
    · exact .inr (.inl (List.mem_map_of_mem himport))
  · rintro (hlang | himport | hdecl)
    · -- The names of `java.lang` come with the package declaration.
      rw [← packages_outline x.tree none x.before.size] at hpackage
      obtain ⟨name, hname⟩ := List.exists_mem_of_ne_nil _ hpackage
      obtain ⟨item, hitem, hitem'⟩ := List.mem_filterMap.mp hname
      cases item with
      | package t =>
        exact h.contains_of_binding (List.mem_append_left _ hitem) (List.mem_map_of_mem hlang)
      | _ => cases hitem'
    · obtain ⟨name, hname, rfl⟩ := List.mem_map.mp himport
      have hread : name ∈ x.readings.filterMap Item.imported? :=
        imports_outlines x.before x.tree ▸ List.mem_append_left _ hname
      obtain ⟨item, hitem, hitem'⟩ := List.mem_filterMap.mp hread
      cases item with
      | «import» t =>
        cases hitem'
        exact h.contains_of_binding hitem (List.mem_singleton.mpr rfl)
      | _ => cases hitem'
    · obtain ⟨d, hd, rfl⟩ := List.mem_map.mp hdecl
      obtain ⟨item, hitem, hitem'⟩ := List.mem_filterMap.mp hd
      cases item with
      | declaration d' =>
        cases hitem'
        exact h.contains_of_binding hitem (List.mem_singleton.mpr rfl)
      | _ => cases hitem'

/-- An import whose last part means nothing else in the file. -/
def OnlyImports (x : Collection) (name : String) : Prop :=
  name ∈ importNames x.tree ∧ Text.afterLast name '.' ∉ javaLangNames ∧
    (∀ other ∈ importNames x.tree, Text.afterLast other '.' = Text.afterLast name '.' →
      other = name) ∧
    Text.afterLast name '.' ∉ (declarations x.readings).map (x.after.registry.shortName ·.id)

/-- The last part of such an import stands for what is imported. -/
theorem Made.expand_import (h : x.Made parse fs) (hpackage : packageNames x.tree ≠ [])
    {name : String}
    (hname : x.OnlyImports name) : expand x.after.full (Text.afterLast name '.') = name := by
  obtain ⟨himport, hlang, honly, hdecl⟩ := hname
  have hbound : x.after.full.contains (Text.afterLast name '.') = true :=
    (h.contains_full hpackage _).mpr (.inr (.inl (List.mem_map_of_mem himport)))
  obtain ⟨other, hother⟩ := Table.contains_iff_exists.mp hbound
  rw [expand, Table.getD, hother, Option.getD_some]
  rcases bound_cases h.collected hother with hmem | ⟨d, hd, hshort, -⟩ | ⟨hmem, hlast⟩
  · obtain ⟨n, hn, heq⟩ := List.mem_map.mp hmem
    exact absurd ((Prod.mk.inj heq).1 ▸ hn) hlang
  · exact absurd (hshort ▸ List.mem_map_of_mem hd) hdecl
  · exact honly other hmem hlast.symm

end Collection

/-! ## Words of a file -/

/-- The simple names that the types of a declaration are made of. An empty one, between two signs,
does not count unless it stands for something. -/
def statedWords (full : Table String) (t : ParseTree) : List String :=
  ((statedTypes t).map ParseTree.text).flatMap fun type =>
    (TypeText.ofText type).names.filter fun w => !(expand full w).isEmpty

theorem statedNames_eq (full : Table String) (t : ParseTree) :
    statedNames full t = (statedWords full t).map (expand full) := by
  unfold statedNames statedWords mentions
  rw [List.map_flatMap]
  refine List.flatMap_congr fun type _ => ?_
  rw [List.filter_map]
  rfl

theorem dot_not_mem_of_word {full : Table String} {t : ParseTree} {w : String}
    (h : w ∈ statedWords full t) :
    '.' ∉ w.toList := by
  obtain ⟨type, -, hw⟩ := List.mem_flatMap.mp h
  exact dot_not_mem_of_name (List.mem_of_mem_filter hw)

mutual

/-- The simple names that the types stated in a tree are made of, each with whether it stands in a
class or interface. -/
def words (full : Table String) (inside : Bool) : ParseTree → List (Bool × String)
  | .node info cs =>
    let stated := statedWords full (.node info cs)
    match Role.ofForm info.form with
    | .type _ => stated.map (true, ·) ++ wordsOf full true cs
    | .method => stated.map (inside, ·) ++ wordsOf full inside cs
    | .field => stated.map (inside, ·)
    | .other => wordsOf full inside cs
    | _ => []
  | _ => []

def wordsOf (full : Table String) (inside : Bool) : List ParseTree → List (Bool × String)
  | [] => []
  | t :: ts => words full inside t ++ wordsOf full inside ts

end

section Words

variable {full : Table String} {nameOf : SymbolId → String} {G H : Bool → String → Prop}

theorem forall_stated (hword : ∀ t, ∀ w ∈ statedWords full t, ∀ inside, G inside (expand full w) ↔
    H inside w)
    (t : ParseTree) (scope : Option SymbolId) :
    (∀ n ∈ (statedNames full t).map (scope, ·), G n.1.isSome n.2) ↔
      ∀ u ∈ (statedWords full t).map (scope.isSome, ·), H u.1 u.2 := by
  rw [statedNames_eq, List.map_map, List.forall_mem_map, List.forall_mem_map]
  exact forall₂_congr fun w hw => hword t w hw scope.isSome

mutual

/-- A property of notes as a property of words. Methods, which are noted too, must have it. -/
theorem forall_notes (hword : ∀ t, ∀ w ∈ statedWords full t, ∀ inside, G inside (expand full w) ↔
    H inside w) :
    ∀ (t : ParseTree) {scope : Option SymbolId} {next : Nat},
    (∀ d ∈ seen scope next t, d.kind = .method → d.scope.isSome = true ∧ G true (nameOf d.id)) →
    ((∀ n ∈ notes full nameOf scope next t, G n.1.isSome n.2) ↔
      ∀ u ∈ words full scope.isSome t, H u.1 u.2)
  | .token _, _, _, _ | .skipped _, _, _, _ | .missing _, _, _, _ => by simp [notes, words]
  | .node info cs, scope, next, hseen => by
    rw [seen] at hseen
    rw [notes, words]
    cases hrole : Role.ofForm info.form with
    | package | «import» => simp
    | type kind =>
      simp only [hrole] at hseen ⊢
      rw [List.forall_mem_append, List.forall_mem_append,
        forall_stated hword (.node info cs) (some next),
        forall_notesOf hword cs (List.forall_mem_cons.mp hseen).2]
      rfl
    | method =>
      simp only [hrole] at hseen ⊢
      obtain ⟨⟨hscope, hname⟩, hrest⟩ : (scope.isSome = true ∧ G true (nameOf next)) ∧ _ :=
        (List.forall_mem_cons.mp hseen).imp (fun h => h rfl) id
      rw [List.forall_mem_cons, List.forall_mem_append, List.forall_mem_append,
        forall_stated hword (.node info cs) (some next), forall_notesOf hword cs hrest, hscope]
      exact and_iff_right hname
    | field =>
      simp only
      exact forall_stated hword (.node info cs) scope
    | other =>
      simp only [hrole] at hseen ⊢
      exact forall_notesOf hword cs hseen

theorem forall_notesOf (hword : ∀ t, ∀ w ∈ statedWords full t, ∀ inside, G inside (expand full w) ↔
    H inside w) :
    ∀ (ts : List ParseTree) {scope : Option SymbolId} {next : Nat},
    (∀ d ∈ seenOf scope next ts, d.kind = .method → d.scope.isSome = true ∧ G true (nameOf d.id)) →
    ((∀ n ∈ notesOf full nameOf scope next ts, G n.1.isSome n.2) ↔
      ∀ u ∈ wordsOf full scope.isSome ts, H u.1 u.2)
  | [], _, _, _ => by simp [notesOf, wordsOf]
  | t :: ts, scope, next, hseen => by
    rw [seenOf] at hseen
    rw [notesOf, wordsOf, List.forall_mem_append, List.forall_mem_append,
      forall_notes hword t fun d hd => hseen d (List.mem_append_left _ hd),
      forall_notesOf hword ts fun d hd => hseen d (List.mem_append_right _ hd)]

end

end Words

/-! ## Readings that come to their end -/

/-- All requests are granted if each passes where it stands. -/
theorem granted_eq_self {v : Names} {rs : List Request} :
    granted v rs = rs ↔ ∀ pre r post, rs = pre ++ r :: post → r.passes (v.after pre) = true := by
  induction rs generalizing v with
  | nil => simp [granted]
  | cons r rs ih =>
    rw [granted]
    constructor
    · intro h pre q post hrs
      split at h
      · next hr =>
        cases pre with
        | nil =>
          cases hrs
          exact hr
        | cons p pre =>
          cases hrs
          exact ih.mp (List.cons_inj_right r |>.mp h) pre q post rfl
      · cases h
    · intro h
      have hfirst : r.passes v = true := h [] r rs rfl
      rw [if_pos hfirst, ih.mpr fun pre q post hrs => h (r :: pre) q post (by rw [hrs]; rfl)]

namespace Collection

variable {parse : Parser} {fs : Files} {x : Collection} {v : Names}

/-- How the requests of a file get hold of one of its symbols. -/
def handleOf (x : Collection) (id : SymbolId) : Handle :=
  if (x.after.registry.get? id).any fun s => s.kind = .method
    then .ofSymbol (x.after.registry.fullName id)
  else .ofClass (x.after.registry.fullName id)

/-- Nothing in the file takes the place of one of its declarations. -/
def Lasting (x : Collection) : Prop := ∀ d ∈ declarations x.items, Lasts x.after x.items d

instance (x : Collection) : Decidable x.Lasting :=
  inferInstanceAs (Decidable (∀ d ∈ declarations x.items, _))

theorem handleOf_eq (h : x.Made parse fs) {d : Declaration} (hd : d ∈ declarations x.items) :
    x.handleOf d.id = if d.kind = .method then .ofSymbol (x.after.registry.fullName d.id)
      else .ofClass (x.after.registry.fullName d.id) := by
  obtain ⟨-, s, hs, hof, -⟩ := h.pass.described (mem_readings hd)
  simp only [handleOf, hs, Option.any_some, hof.kind, decide_eq_true_eq]

section Lasting

variable (h : x.Made parse fs) (hlasting : x.Lasting) {d : Declaration} (hd : d ∈ x.seen)
include h hlasting hd

theorem stands_of_lasting : d.Stands x.after.full x.after.registry.fullName id x.handleOf := by
  have hdecl := x.seen_subset hd
  obtain ⟨-, s, hs, -, -, htype⟩ := h.pass.described (mem_readings hdecl)
  obtain ⟨hshort, -, -⟩ := collect_lasts h.collected hdecl (hlasting d hdecl)
  refine ⟨fun hkind => ?_, fun hkind => ⟨_, (hlasting d hdecl).2.2 hkind, hshort, ?_⟩⟩
  · obtain ⟨n, hn, hname⟩ := htype hkind
    rw [Registry.shortName_of_get? hs, ← hname] at hshort
    exact ⟨n, _, hn, hshort, by rw [handleOf_eq h hdecl, if_neg hkind]; rfl⟩
  · rw [handleOf_eq h hdecl, if_pos hkind]
    rfl

/-- A declaration is found in its own file. -/
theorem find_handleOf : (x.handleOf d.id).find x.after.classes x.after.symbols = some d.id := by
  have hdecl := x.seen_subset hd
  obtain ⟨-, hsymbol, hclass⟩ := collect_lasts h.collected hdecl (hlasting d hdecl)
  rw [handleOf_eq h hdecl]
  split
  · exact hsymbol
  · next hkind => exact hclass hkind

end Lasting

/-- A file with a package declaration and imports of dotted names, where no part is missing and
nothing takes the place of a declaration. -/
structure Orderly (x : Collection) : Prop where
  packaged : Packaged x.tree
  dotted : ∀ name ∈ importNames x.tree, Dotted name
  complete : Complete (spots [] x.tree)
  lasting : x.Lasting

instance (x : Collection) : Decidable x.Orderly :=
  decidable_of_iff (Packaged x.tree ∧ (∀ name ∈ importNames x.tree, Dotted name) ∧
    Complete (spots [] x.tree) ∧ x.Lasting)
    ⟨fun h => ⟨h.1, h.2.1, h.2.2.1, h.2.2.2⟩, fun h =>
      ⟨h.packaged, h.dotted, h.complete, h.lasting⟩⟩

/-- A file that was collected, that keeps the places of its declarations and lacks no part. -/
structure Readable (parse : Parser) (fs : Files) (x : Collection) : Prop where
  made : x.Made parse fs
  steady : x.Steady
  lasting : x.Lasting
  complete : Complete (spots [] x.tree)
  nests : x.tree.nests importsNames = true

/-- A name can be noted: it is predefined, or the note is made in a class or interface, and the name
is known or imported. -/
def Accepts (x : Collection) (v : Names) (inside : Bool) (name : String) : Prop :=
  isPredefined name = true ∨ inside = true ∧ (v.symbols name = true ∨ name ∈ importNames x.tree)

namespace Readable

section

variable (h : x.Readable parse fs)
include h

theorem stands : ∀ d ∈ x.seen, d.Stands x.after.full x.after.registry.fullName id x.handleOf :=
  fun _ => stands_of_lasting h.made h.lasting

/-- The name of a declaration stands for what is declared. -/
theorem expand_declared {d : Declaration} (hd : d ∈ x.seen) :
    expand x.after.full (x.after.registry.shortName d.id) = x.after.registry.fullName d.id := by
  have hdecl := x.seen_subset hd
  rw [expand, Table.getD, (collect_lasts h.made.collected hdecl (h.lasting d hdecl)).1,
    Option.getD_some]

theorem legible : ∀ r ∈ x.script, r.Legible x.handleOf x.seen :=
  legible_script h.stands x.tree h.complete (List.Subset.refl _)

theorem unbroken : Unbroken x.script := fun fault hmem => h.legible (.fail fault) hmem

theorem depends : x.script.filterMap Request.depend? =
    x.notes.map (Prod.map (Option.map x.handleOf) id) := by
  have hnotes := depends_script x.tree h.unbroken h.stands rfl
  rwa [Option.map_id_fun, Prod.map_id, List.map_id] at hnotes

theorem interactions : x.script.filterMap Request.interact? =
    (references x.after.full x.tree).map counted := by
  have houtside : classAround x.after.full [] = [none] := rfl
  exact interactions_script x.tree h.nests h.unbroken rfl houtside rfl

theorem depend_mem_iff {owner : Option Handle} {name : String} :
    .depend owner name ∈ x.script ↔ ∃ n ∈ x.notes, n.1.map x.handleOf = owner ∧ n.2 = name := by
  rw [← mem_depends_iff, h.depends, List.mem_map]
  simp only [Prod.map, id, Prod.mk.injEq]

theorem accepts_of_granted (hgranted : granted v x.script = x.script) {n : Option SymbolId × String}
    (hn : n ∈ x.notes) :
    x.Accepts v n.1.isSome n.2 := by
  have hmem : .depend (n.1.map x.handleOf) n.2 ∈ x.script := h.depend_mem_iff.mpr ⟨n, hn, rfl, rfl⟩
  obtain ⟨pre, post, hsplit⟩ := List.append_of_mem hmem
  have hpass := granted_eq_self.mp hgranted pre _ post hsplit
  simp only [Request.passes, Bool.or_eq_true, Bool.and_eq_true] at hpass
  rcases hpass with hpre | ⟨hname, howner⟩
  · exact .inl hpre
  refine .inr ⟨?_, ?_⟩
  · cases hn' : n.1 with
    | none =>
      rw [hn'] at howner
      cases howner
    | some id => rfl
  · rcases (v.symbols_after pre n.2).mp hname with hknown | ⟨info, hinfo⟩
    · exact .inl hknown
    · exact .inr (h.steady.isLocal (.import n.2 info) (hsplit ▸ List.mem_append_left _ hinfo))

end

section Known

variable (hclasses : ∀ name, x.after.classes.contains name = true → v.classes name = true)
  (hsymbols : ∀ name, x.after.symbols.contains name = true → v.symbols name = true)
include hclasses hsymbols

/-- The owner of a note is found, where the names of the file are known. -/
theorem has_owner (h : x.Readable parse fs) {d : Declaration} (hd : d ∈ x.seen) :
    v.has (x.handleOf d.id) = true := by
  have hfind := find_handleOf h.made h.lasting hd
  cases hhandle : x.handleOf d.id with
  | ofClass name =>
    rw [hhandle] at hfind
    exact hclasses name (Table.contains_iff_exists.mpr ⟨_, hfind⟩)
  | ofSymbol name =>
    rw [hhandle] at hfind
    exact hsymbols name (Table.contains_iff_exists.mpr ⟨_, hfind⟩)

/-- A note that can be made passes, wherever it stands: the imports of the file are known by
then. -/
theorem passes_of_accepts (h : x.Readable parse fs) {pre post : List Request}
    {n : Option SymbolId × String}
    (hsplit : x.script = pre ++ .depend (n.1.map x.handleOf) n.2 :: post) (hn : n ∈ x.notes)
    (haccepts : x.Accepts v n.1.isSome n.2) :
    (Request.depend (n.1.map x.handleOf) n.2).passes (v.after pre) = true := by
  simp only [Request.passes, Bool.or_eq_true, Bool.and_eq_true]
  rcases haccepts with hpre | ⟨hsome, hknown⟩
  · exact .inl hpre
  refine .inr ⟨?_, ?_⟩
  · exact (v.symbols_after pre n.2).mpr (hknown.imp id fun himport =>
      h.steady.import_before hsplit himport)
  · rcases owner_of_note x.tree n hn with hnone | ⟨d, hd, heq⟩
    · rw [hnone] at hsome
      cases hsome
    · rw [heq]
      exact Names.has_mono (v.le_after pre) (h.has_owner hclasses hsymbols hd)

/-- **When a reading comes to its end**: all that is noted can be noted. -/
theorem granted_eq_iff (h : x.Readable parse fs) :
    granted v x.script = x.script ↔ ∀ n ∈ x.notes, x.Accepts v n.1.isSome n.2 := by
  refine ⟨fun hgranted n hn => h.accepts_of_granted hgranted hn, fun hnotes =>
    granted_eq_self.mpr ?_⟩
  intro pre q post hsplit
  have hmem : q ∈ x.script := hsplit ▸ List.mem_append_right _ List.mem_cons_self
  cases q with
  | fail fault => exact absurd hmem (h.unbroken fault)
  | enter k =>
    obtain ⟨d, hd, rfl⟩ := h.legible (.enter k) hmem
    exact Names.has_mono (v.le_after pre) (h.has_owner hclasses hsymbols hd)
  | «import» name info => rw [Request.passes, h.steady.isSome_stop hmem, Bool.or_true]
  | super name type | interact p q => rfl
  | depend owner name =>
    obtain ⟨n, hn, rfl, rfl⟩ := h.depend_mem_iff.mp hmem
    exact h.passes_of_accepts hclasses hsymbols hsplit hn (hnotes n hn)

end Known

end Readable

/-- Every simple name in a stated type stands for something predefined, or it is used in a class or
interface, and the file says what it stands for. -/
def Understood (x : Collection) : Prop :=
  ∀ u ∈ words x.after.full false x.tree, isPredefined (expand x.after.full u.2) = true ∨
  u.1 = true ∧ x.Binds u.2

instance (x : Collection) : Decidable x.Understood :=
  inferInstanceAs (Decidable (∀ u ∈ words _ _ _, _))

namespace Readable

variable (h : x.Readable parse fs) (hpackage : packageNames x.tree ≠ [])
include h hpackage

/-- What a word stands for can be noted just if it is predefined or the file binds the word, where
all other known names have dots. -/
theorem accepts_iff_binds (hsymbols : ∀ name, x.after.symbols.contains name = true →
    v.symbols name = true)
    (hdots : ∀ name, v.symbols name = true → '.' ∈ name.toList) {w : String} (hw : '.' ∉ w.toList)
    (inside : Bool) :
    x.Accepts v inside (expand x.after.full w) ↔
      (isPredefined (expand x.after.full w) = true ∨ inside = true ∧ x.Binds w) := by
  refine or_congr_right' fun hpre => and_congr_right fun _ => ?_
  rw [← h.made.contains_full hpackage]
  unfold expand Table.getD at hpre ⊢
  cases hget : x.after.full.get? w with
  | some name =>
    rw [hget] at hpre
    refine iff_of_true ?_ (Table.contains_iff_exists.mpr ⟨name, hget⟩)
    rcases standsFor_collected h.made.collected w name hget with hpre' | hown | himport
    · exact absurd hpre' hpre
    · exact .inl (hsymbols name hown)
    · exact .inr himport
  | none =>
    refine iff_of_false ?_ (by rw [Table.contains, hget]; exact Bool.false_ne_true)
    rintro (hknown | himport)
    · exact hw (hdots w hknown)
    · exact hw (h.steady.dotted w himport).1

/-- A reading comes to its end just if all words are understood. -/
theorem granted_eq_iff_understood (hclasses : ∀ name, x.after.classes.contains name = true →
    v.classes name = true)
    (hsymbols : ∀ name, x.after.symbols.contains name = true → v.symbols name = true)
    (hdots : ∀ name, v.symbols name = true → '.' ∈ name.toList) :
    granted v x.script = x.script ↔ x.Understood := by
  have hmethods : ∀ d ∈ x.seen, d.kind = .method →
      d.scope.isSome = true ∧ x.Accepts v true (x.after.registry.fullName d.id) := by
    intro d hd hkind
    have hdecl := x.seen_subset hd
    obtain ⟨o, ho⟩ := h.made.pass.exists_scope (mem_readings hdecl) hkind
    obtain ⟨-, hsymbol, -⟩ := collect_lasts h.made.collected hdecl (h.lasting d hdecl)
    refine ⟨by rw [ho]; rfl, .inr ⟨rfl, .inl (hsymbols _ ?_)⟩⟩
    exact Table.contains_iff_exists.mpr ⟨_, hsymbol⟩
  rw [h.granted_eq_iff hclasses hsymbols]
  exact forall_notes (fun _ _ hw inside => h.accepts_iff_binds hpackage hsymbols hdots
    (dot_not_mem_of_word hw) inside)
    x.tree hmethods

end Readable

end Collection

/-! ## Projects that come to their end -/

section Project

variable {parse : Parser} {fs : Files} {xs : List Collection}

theorem performed_eq_flatten {v v' : Names} (hxs : ∀ x ∈ xs, x.Steady) (hv : v.Beyond v')
    (hown : ∀ x ∈ xs, ∀ name, x.after.symbols.contains name = true → v.symbols name = true) :
    performed v' (xs.map Collection.script) = (xs.map Collection.script).flatten ↔
      ∀ x ∈ xs, granted v x.script = x.script := by
  induction xs generalizing v' with
  | nil => simp [performed]
  | cons x xs ih =>
    obtain ⟨hx, hrest⟩ := List.forall_mem_cons.mp hxs
    obtain ⟨hownx, hownrest⟩ := List.forall_mem_cons.mp hown
    rw [List.map_cons, performed_cons_eq, List.forall_mem_cons, hx.granted_eq hv hownx]
    refine and_congr_right fun _ => ih hrest (hv.after fun name info hmem => ?_) hownrest
    exact (hx.dotted_of_import (granted_subset v x.script hmem)).1

/-- All requests of a project are granted just if all words of its files are understood. -/
theorem fulfilled_eq_iff (hxs : ∀ x ∈ xs, x.Readable parse fs)
    (hpackaged : ∀ x ∈ xs, Packaged x.tree) :
    fulfilled xs = (xs.map Collection.script).flatten ↔ ∀ x ∈ xs, x.Understood := by
  have hdots : ∀ name, (namesOf xs).symbols name = true → '.' ∈ name.toList := by
    intro name hname
    obtain ⟨x, hx, hfound⟩ := List.any_eq_true.mp hname
    have hsymbol : x.after.symbols.contains name = true := by
      rcases Bool.or_eq_true_iff.mp hfound with hclass | hsymbol
      · exact (hxs x hx).made.contains_symbol hclass
      · exact hsymbol
    exact (hxs x hx).made.dot_mem (hxs x hx).steady.regular.headsFirst (hpackaged x hx) hsymbol
  rw [fulfilled, performed_eq_flatten (fun x hx => (hxs x hx).steady) (.refl _) fun _ hx _ =>
    symbols_namesOf hx]
  exact forall₂_congr fun x hx => (hxs x hx).granted_eq_iff_understood (hpackaged x hx).1
    (fun _ => classes_namesOf hx) (fun _ => symbols_namesOf hx) hdots

end Project

/-! ## What is counted and noted -/

namespace Collection.Readable

variable {parse : Parser} {fs : Files} {x : Collection}

/-- A file counts each reference that its tree states. -/
theorem count_script (h : x.Readable parse fs) (p q : String) :
    x.script.count (.interact p q) = hits p q (references x.after.full x.tree) := by
  rw [count_interact, h.interactions, hits_eq_count]

/-- What a file adds to a symbol is what is noted on its declaration. -/
theorem filterMap_script (h : x.Readable parse fs) {classes : ClassTable} {symbols : Table SymbolId}
    {id j : SymbolId}
    (hfind : ∀ e ∈ x.seen, (x.handleOf e.id).find classes symbols = some id ↔ e.id = j) :
    x.script.filterMap (·.dependency? classes symbols id) = notedOn j x.notes := by
  have hsplit : (fun r : Request => r.dependency? classes symbols id) =
      fun r => r.depend?.bind fun n => (Request.depend n.1 n.2).dependency? classes symbols id := by
    funext r
    cases r <;> rfl
  rw [hsplit, ← List.filterMap_filterMap, h.depends, List.filterMap_map, notedOn,
    ← List.filterMap_eq_map, List.filterMap_filter]
  refine List.filterMap_congr fun n hn => ?_
  obtain ⟨owner, name⟩ := n
  cases owner with
  | none => rfl
  | some e =>
    rcases owner_of_note x.tree _ hn with hnone | ⟨d, hd, heq⟩
    · cases hnone
    · cases heq
      simp [Request.dependency?, hfind d hd]

end Collection.Readable

section Project

variable {parse : Parser} {fs : Files} {xs : List Collection} {r : Registry} {s : Scene Profiler}

theorem count_scripts (hxs : ∀ x ∈ xs, x.Readable parse fs) (p q : String) :
    (xs.map Collection.script).flatten.count (.interact p q) =
      hits p q (xs.flatMap fun x => references x.after.full x.tree) := by
  induction xs with
  | nil => rfl
  | cons x xs ih =>
    obtain ⟨hx, hrest⟩ := List.forall_mem_cons.mp hxs
    rw [List.map_cons, List.flatten_cons, List.count_append, hx.count_script, ih hrest,
      List.flatMap_cons, hits_append]

/-- Where all requests are granted, the references of all files are counted. -/
theorem interactions_eq (hxs : ∀ x ∈ xs, x.Readable parse fs)
    (hall : fulfilled xs = (xs.map Collection.script).flatten) {p q : String} (hne : p ≠ q) :
    interactions xs p q = hits p q (xs.flatMap fun x => references x.after.full x.tree) := by
  rw [interactions, if_neg hne, hall, count_scripts hxs]

/-- What one file adds, if the others add nothing. -/
theorem filterMap_flatten_of_silent {f : Request → Option String} {pre post : List Collection}
    {x : Collection} (h : ∀ y ∈ pre ++ post, y.Silent f) :
    ((pre ++ x :: post).map Collection.script).flatten.filterMap f = x.script.filterMap f := by
  have hnone {ys : List Collection} (hys : ys ⊆ pre ++ post) :
      (ys.map Collection.script).flatten.filterMap f = [] := by
    refine List.filterMap_eq_nil_iff.mpr fun q hq => ?_
    obtain ⟨rs, hrs, hq⟩ := List.mem_flatten.mp hq
    obtain ⟨y, hy, rfl⟩ := List.mem_map.mp hrs
    exact h y (hys hy) q hq
  rw [List.map_append, List.map_cons, List.flatten_append, List.flatten_cons, List.filterMap_append,
    List.filterMap_append, hnone (List.subset_append_left pre post),
    hnone (List.subset_append_right pre post), List.nil_append, List.append_nil]

/-- Where all requests are granted, each symbol depends on what is noted on its declaration. -/
theorem Profiled.dependency_eq (h : Profiled r xs s) (hxs : ∀ x ∈ xs, x.Readable parse fs)
    (hapart : xs.Pairwise Collection.Apart)
    (hall : fulfilled xs = (xs.map Collection.script).flatten) {x : Collection}
    (hx : x ∈ xs) {d : Declaration} (hd : d ∈ x.seen) :
    ∃ id, s.self.symbols.get? (x.after.registry.fullName d.id) = some id ∧
      s.shared.registry.dependency id = notedOn d.id x.notes := by
  have hwhole : ∀ y ∈ xs, y.Whole := fun y hy => (hxs y hy).steady.whole
  have hread := hxs x hx
  obtain ⟨-, hsymbol, -⟩ := collect_lasts hread.made.collected (x.seen_subset hd)
    (hread.lasting d (x.seen_subset hd))
  obtain ⟨i, hi, -, hempty⟩ := hread.made.described (x.seen_subset hd)
  obtain ⟨pre, post, rfl⟩ := List.append_of_mem hx
  obtain ⟨-, hpost, hpre⟩ := List.pairwise_append.mp hapart
  have hothers : ∀ y ∈ pre ++ post, x.Apart y := by
    intro y hy
    rcases List.mem_append.mp hy with hy | hy
    · exact (hpre y hy x List.mem_cons_self).symm
    · exact (List.pairwise_cons.mp hpost).1 y hy
  obtain ⟨n, hle, hsymbols, hnumbers⟩ := exists_offset pre post x r.size
  have hnumber {k : Handle} {j : Nat} (hj : k.find x.after.classes x.after.symbols = some j) :
      numberOf k r.size (pre ++ x :: post) = some (j + n) := by
    refine hnumbers k j hj fun y hy => ?_
    exact (hothers y (List.mem_append_right _ hy)).find hread.steady.whole (hwhole y (by simp [hy]))
      (Option.isSome_iff_exists.mpr ⟨j, hj⟩)
  have hsymbolIn : symbolIn r.size (pre ++ x :: post) (d.id + n) = some (i.shift n) := by
    rw [hsymbols d.id (Registry.lt_size_of_get? hi), hi]
    rfl
  have hfind (k : Handle) : k.find (classesOf r (pre ++ x :: post))
      (symbolsOf r (pre ++ x :: post)) =
      numberOf k r.size (pre ++ x :: post) := find_project hwhole r k
  refine ⟨d.id + n, h.done.kept _ _ ((hfind (.ofSymbol _)).trans (hnumber hsymbol)), ?_⟩
  rw [Registry.dependency_of_get? (h.get? (Nat.le_trans hle (Nat.le_add_left n d.id)) hsymbolIn)]
  -- Only the file itself adds to its symbols.
  have hadds := adds_dependency (classesOf r (pre ++ x :: post)) (symbolsOf r (pre ++ x :: post))
    (d.id + n)
  rw [funext hfind] at hadds
  have hsilent : ∀ y ∈ pre ++ post, y.Silent
      (·.dependency? (classesOf r (pre ++ x :: post)) (symbolsOf r (pre ++ x :: post))
        (d.id + n)) := by
    intro y hy
    have hmem : y ∈ pre ++ x :: post := by
      rcases List.mem_append.mp hy with hy | hy <;> simp [hy]
    refine (hxs y hmem).steady.isLocal.silent hadds hwhole hsymbolIn (hothers y hy _ ?_)
    rw [Registry.fullName_of_get? hi] at hsymbol
    exact Table.contains_iff_exists.mpr ⟨_, hsymbol⟩
  show i.dependency ++ (fulfilled (pre ++ x :: post)).filterMap _ = _
  rw [hempty, List.nil_append, hall, filterMap_flatten_of_silent hsilent]
  refine hread.filterMap_script fun e he => ?_
  rw [hfind, hnumber (Collection.find_handleOf hread.made hread.lasting he), Option.some_inj]
  exact Nat.add_right_cancel_iff

end Project

namespace Profiler

variable {parse : Parser} {fs : Files}

/-- **The spellings that count.** Take files that can all be collected, that share no name of a
symbol, and each of which is orderly. A profile of them comes to its end, and no analysis is given
up just if every simple name in a type is understood: if it stands for something predefined, or is
used in a class or interface and is a name of `java.lang`, the last part of an import or the name of
a declaration of the file. Then every symbol depends on what its declaration notes, and for every
two classes the references from one to the other are counted. A name is noted and counted as what it
stands for, and this is the same for a class that is declared in the file as for one that is
imported. -/
theorem bound_spellings_count
    (hparse : parse = Java.parse ∨ ∀ text, Regular (parse text).tree ∧
      (parse text).tree.nests importsNames = true)
    (files : List String) (shared : Shared)
    (hcollects : ∀ file ∈ files, collects parse fs file = true)
    (xs : List Collection) (hxs : files.filterMap (alone parse fs) = xs)
    (hapart : xs.Pairwise Collection.Apart) (horderly : ∀ x ∈ xs, x.Orderly) :
    ∃ s, (profile parse fs false).run.run (opened files shared) = (.ok (), s) ∧
      (s.shared.printed = shared.printed ↔ ∀ x ∈ xs, x.Understood) ∧
      ((∀ x ∈ xs, x.Understood) →
        (∀ x ∈ xs, ∀ d ∈ x.seen, ∃ id, s.self.symbols.get? (x.after.registry.fullName d.id) =
          some id ∧
          s.shared.registry.dependency id = notedOn d.id x.notes) ∧
        ∀ p q, (classTable s).contains p = true → (classTable s).contains q = true → p ≠ q →
          cell s.shared.numbering s.self.matrix p q =
            some (Int64.ofNat (hits p q (xs.flatMap fun x => references x.after.full x.tree)))) ∧
      ∀ x ∈ xs,
        (∀ d ∈ x.seen, expand x.after.full (x.after.registry.shortName d.id) =
          x.after.registry.fullName d.id) ∧
        ∀ name, x.OnlyImports name → expand x.after.full (Text.afterLast name '.') = name := by
  have hregular : parse = Java.parse ∨ ∀ text, Regular (parse text).tree :=
    hparse.imp id fun h text => (h text).1
  have hnests (text : String) : (parse text).tree.nests importsNames = true := by
    rcases hparse with rfl | h
    · exact parse_importsNames text
    · exact (h text).2
  have hreadable : ∀ x ∈ xs, x.Readable parse fs := by
    intro x hx
    have hmem : x ∈ files.filterMap (alone parse fs) := hxs ▸ hx
    obtain ⟨-, -, hmade⟩ := alone_eq_some (alone_of_mem hmem)
    exact ⟨hmade, steady_alone hmem hregular (horderly x hx).dotted, (horderly x hx).lasting,
      (horderly x hx).complete, hmade.parsed ▸ hnests _⟩
  obtain ⟨s, hrun, hs, hquiet⟩ := profile_profiled hcollects shared
  rw [hxs] at hs hquiet
  have hall := fulfilled_eq_iff hreadable fun x hx => (horderly x hx).packaged
  refine ⟨s, hrun, hquiet.trans hall, fun hunderstood =>
    ⟨fun x hx d hd => ?_, fun p q hp hq hne => ?_⟩, fun x hx =>
      ⟨fun d hd => ?_, fun name hname => ?_⟩⟩
  · exact hs.dependency_eq hreadable hapart (hall.mpr hunderstood) hx hd
  · rw [hs.classTable, contains_classesOf] at hp hq
    rw [hs.cell_eq, if_pos ⟨hp, hq⟩, interactions_eq hreadable (hall.mpr hunderstood) hne]
  · exact (hreadable x hx).expand_declared hd
  · exact (hreadable x hx).made.expand_import (horderly x hx).packaged.1 hname

/-- Two files: a class with one field, after some imports, and a class of the same package. -/
def spelledParser (imports : List ParseTree) (type : String) : Parser :=
  parserOf [("A", branch .compilationUnit (packageOf "p" :: imports ++
    [classNamed (named "A") [fieldOf type]])),
    ("B", branch .compilationUnit [packageOf "p", classNamed (named "B") []])]

def spelledFiles : Files := ⟨[(["A.java"], .text "A"), (["B.java"], .text "B")]⟩

/-- The scene after both files are profiled. -/
def spelledProfile (imports : List ParseTree) (type : String) : Scene Profiler :=
  ((profile (spelledParser imports type) spelledFiles false).run.run
    (opened ["A.java", "B.java"] {})).2

/-- The files with the import, each collected for itself. -/
def spelledCollections : List Collection :=
  ["A.java", "B.java"].filterMap (alone (spelledParser [importOf "p" "B"] "B") spelledFiles)

/-- The imported class counts, and nothing is given up. -/
theorem imported_spelling_counts :
    (∀ file ∈ ["A.java", "B.java"], collects (spelledParser [importOf "p" "B"] "B") spelledFiles
      file = true) ∧
    spelledCollections.Pairwise Collection.Apart ∧
    (∀ x ∈ spelledCollections, x.Orderly ∧ x.Understood) ∧
    (spelledProfile [importOf "p" "B"] "B").shared.printed = "" ∧
    cell (spelledProfile [importOf "p" "B"] "B").shared.numbering
      (spelledProfile [importOf "p" "B"] "B").self.matrix
      "p.A" "p.B" = some (Int64.ofNat 1) := by
  have hparse (text : String) : Regular (spelledParser [importOf "p" "B"] "B" text).tree ∧
      (spelledParser [importOf "p" "B"] "B" text).tree.nests importsNames = true :=
    ⟨forall_parserOf (by decide) (by decide +kernel) text,
      forall_parserOf (P := fun t => t.nests importsNames = true) (by decide)
        (by decide +kernel) text⟩
  have hcollects : ∀ file ∈ ["A.java", "B.java"],
      collects (spelledParser [importOf "p" "B"] "B") spelledFiles file = true := by decide +kernel
  have hapart : spelledCollections.Pairwise Collection.Apart := by decide +kernel
  -- One evaluation, because the names of `java.lang` take long to put in a table.
  obtain ⟨hfit, hhits, hA, hB⟩ : (∀ x ∈ spelledCollections, x.Orderly ∧ x.Understood) ∧
      hits "p.A" "p.B" (spelledCollections.flatMap fun x => references x.after.full x.tree) = 1 ∧
      (classTable (spelledProfile [importOf "p" "B"] "B")).contains "p.A" = true ∧
      (classTable (spelledProfile [importOf "p" "B"] "B")).contains "p.B" = true := by
        decide +kernel
  obtain ⟨s, hs, hquiet, hcounts, -⟩ :=
    bound_spellings_count (.inr hparse) ["A.java", "B.java"] {} hcollects
    spelledCollections rfl hapart fun x hx => (hfit x hx).1
  have hscene : spelledProfile [importOf "p" "B"] "B" = s := by rw [spelledProfile, hs]
  have hunderstood := fun x hx => (hfit x hx).2
  rw [hscene] at hA hB ⊢
  refine ⟨hcollects, hapart, hfit, hquiet.mpr hunderstood, ?_⟩
  rw [← hhits]
  exact (hcounts hunderstood).2 "p.A" "p.B" hA hB (by decide)

/-- The spellings that do not count: for a class of the same package that is not imported, for one
that is written with its package, for a type variable and for a wildcard, the analysis of the file
is given up. -/
theorem unbound_spellings_given_up :
    (∀ type ∈ ["B", "p.B"], (spelledProfile [] type).shared.printed ≠ "" ∧
      cell (spelledProfile [] type).shared.numbering (spelledProfile [] type).self.matrix "p.A"
        "p.B" = some 0) ∧
    ∀ type ∈ ["T", "B<?>"], (spelledProfile [importOf "p" "B"] type).shared.printed ≠ "" := by
  decide +kernel

end Profiler

end Coupling.Project
