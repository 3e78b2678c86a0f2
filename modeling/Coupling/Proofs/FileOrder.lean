import Coupling.Proofs.Arrangement
import Coupling.Proofs.Heads

/-!
# The order of the files

A profile goes through its files in the order in which it was given them, and an analysis may come
upon names that files before it have imported. For files that share no name and import dotted names
only this makes no difference: a dotted name that another file has imported is not noted by a file
that does not import it as well, and then it knows it by itself. So what is granted to a file can be
told without the other files' imports (`fulfilled_eq_flatMap`), each symbol gets what its own file
adds to it, and in another order the same records and counts are found (`file_order_irrelevant`).
-/

namespace Coupling.Project

open Java (ParseTree)

/-! ## What is granted to a file -/

/-- A name with a dot and without the signs of a parameter list or of a missing token. -/
def Dotted (name : String) : Prop := '.' ∈ name.toList ∧ '(' ∉ name.toList ∧ '<' ∉ name.toList

instance (name : String) : Decidable (Dotted name) := inferInstanceAs (Decidable (_ ∧ _))

theorem Dotted.ne_empty {name : String} (h : Dotted name) : name ≠ "" := by
  rintro rfl
  exact absurd h.1 (by decide)

/-- A collected file that imports dotted names. -/
structure Collection.Steady (x : Collection) : Prop where
  whole : x.Whole
  regular : Regular x.tree
  isLocal : x.Local
  dotted : ∀ name ∈ importNames x.tree, Dotted name

/-- More names are known, but only symbols with dots. -/
structure Names.Beyond (v v' : Names) : Prop where
  le : v ≤ v'
  classes : v'.classes = v.classes
  symbols : ∀ name, v'.symbols name = true → v.symbols name = true ∨ '.' ∈ name.toList

theorem Names.Beyond.refl (v : Names) : v.Beyond v := ⟨v.le_refl, rfl, fun _ => .inl⟩

theorem Names.Beyond.after {v v' : Names} (h : v.Beyond v') {rs : List Request}
    (hrs : ∀ name info, .import name info ∈ rs → '.' ∈ name.toList) : v.Beyond (v'.after rs) := by
  refine ⟨Names.le_trans h.le (v'.le_after rs), (v'.classes_after rs).trans h.classes,
    fun name hname => ?_⟩
  rcases (v'.symbols_after rs name).mp hname with hold | ⟨info, hmem⟩
  · exact h.symbols name hold
  · exact .inr (hrs name info hmem)

namespace Collection.Steady

variable {x : Collection}

variable {name : String} {info : Java.NodeInfo}

theorem dotted_of_import (h : x.Steady) (hmem : .import name info ∈ x.script) :
    Dotted name :=
  h.dotted name (h.isLocal _ hmem)

/-- An import has a last token, so that it can become a symbol. -/
theorem isSome_stop (h : x.Steady) (hmem : .import name info ∈ x.script) :
    info.stop.isSome = true := by
  by_contra hnone
  rw [Option.not_isSome_iff_eq_none] at hnone
  have hdotted := h.dotted_of_import hmem
  rcases stop_of_import x.tree {} h.regular.ended name info hmem hnone with hempty | hmissing
  · exact hdotted.ne_empty hempty
  · exact hdotted.2.2 hmissing

/-- Where a name is noted, the imports of the file are known. -/
theorem import_before (h : x.Steady) {pre post : List Request} {owner : Option Handle}
    (hscript : x.script = pre ++ .depend owner name :: post) (hname : name ∈ importNames x.tree) :
    ∃ info, .import name info ∈ pre := by
  obtain ⟨info, hmem⟩ : ∃ info, .import name info ∈ x.script :=
    exists_import x.tree {} h.regular.headsFirst name hname (h.dotted name hname).ne_empty
  have hsorted : x.script.Pairwise fun a b => b.isImport = true → IsHead a :=
    script_sorted x.tree {} h.regular.headsFirst
  rw [hscript] at hmem hsorted
  rcases List.mem_append.mp hmem with hpre | hpost
  · exact ⟨info, hpre⟩
  · rcases List.mem_cons.mp hpost with heq | hpost
    · cases heq
    · have hhead := (List.pairwise_cons.mp (List.pairwise_append.mp hsorted).2.1).1 _ hpost rfl
      rcases hhead with hhead | hhead <;> cases hhead

section Beyond

variable {v v' : Names} (hv : v.Beyond v')
  (hown : ∀ name, x.after.symbols.contains name = true → v.symbols name = true)
include hv hown

/-- The symbols of the file are found, whatever others have imported. -/
theorem has_after_eq (pre : List Request) {k : Handle}
    (hk : x.after.symbols.contains k.name = true) :
    (v'.after pre).has k = (v.after pre).has k := by
  cases k with
  | ofClass name =>
    show (v'.after pre).classes name = (v.after pre).classes name
    rw [Names.classes_after, Names.classes_after, hv.classes]
  | ofSymbol name =>
    have hknown := (v.le_after pre).symbols name (hown name hk)
    have hknown' := (Names.after_mono hv.le (List.prefix_refl pre)).symbols name hknown
    exact hknown'.trans hknown.symm

/-- A name that is noted is known without what others have imported: it is a name of the file, it
has no dot, or the file imports it as well. -/
theorem symbols_after_eq (h : x.Steady) {pre post : List Request} {owner : Option Handle}
    {name : String}
    (hscript : x.script = pre ++ .depend owner name :: post) (hpre : isPredefined name = false) :
    (v'.after pre).symbols name = (v.after pre).symbols name := by
  have hle : v.after pre ≤ v'.after pre := Names.after_mono hv.le (List.prefix_refl pre)
  obtain ⟨-, hname⟩ := h.isLocal _ (hscript ▸ List.mem_append_right _ List.mem_cons_self)
  rw [Bool.eq_iff_iff]
  refine ⟨fun hknown => ?_, hle.symbols name⟩
  rcases hname with hpre' | hown' | hdot | himport
  · rw [hpre] at hpre'
    cases hpre'
  · exact (v.le_after pre).symbols name (hown name hown')
  · rcases (v'.symbols_after pre name).mp hknown with hold | hmem
    · exact (v.le_after pre).symbols name ((hv.symbols name hold).resolve_right hdot)
    · exact (v.symbols_after pre name).mpr (.inr hmem)
  · exact (v.symbols_after pre name).mpr (.inr (h.import_before hscript himport))

/-- Dotted names that others have imported make no difference to what is granted to a file. -/
theorem granted_eq (h : x.Steady) : granted v' x.script = granted v x.script := by
  refine granted_congr x.script fun pre q post hscript => ?_
  have hmem : q ∈ x.script := hscript ▸ List.mem_append_right _ List.mem_cons_self
  have hwithin := h.isLocal q hmem
  cases q with
  | fail fault => rfl
  | enter k => exact has_after_eq hv hown pre hwithin
  | «import» name info => rw [Request.passes, Request.passes, h.isSome_stop hmem, Bool.or_true,
    Bool.or_true]
  | super name type | interact p q => rfl
  | depend owner name =>
    have hsame : owner.any (v'.after pre).has = owner.any (v.after pre).has := by
      cases owner with
      | none => rfl
      | some k => exact has_after_eq hv hown pre (hwithin.1 k rfl)
    rw [Request.passes, Request.passes, hsame]
    cases hpre : isPredefined name with
    | true => rfl
    | false => rw [symbols_after_eq hv hown h hscript hpre]

end Beyond

end Collection.Steady

theorem performed_eq_flatMap {v v' : Names} {xs : List Collection} (hxs : ∀ x ∈ xs, x.Steady)
    (hv : v.Beyond v')
    (hown : ∀ x ∈ xs, ∀ name, x.after.symbols.contains name = true → v.symbols name = true) :
    performed v' (xs.map Collection.script) = xs.flatMap fun x => granted v x.script := by
  induction xs generalizing v' with
  | nil => rfl
  | cons x xs ih =>
    obtain ⟨hx, hrest⟩ := List.forall_mem_cons.mp hxs
    obtain ⟨hownx, hownrest⟩ := List.forall_mem_cons.mp hown
    rw [List.map_cons, performed, hx.granted_eq hv hownx, List.flatMap_cons]
    refine congrArg _ (ih hrest (hv.after fun name info hmem => ?_) hownrest)
    exact (hx.dotted_of_import (granted_subset v x.script hmem)).1

/-- **What is granted to a file can be told without the imports of other files.** -/
theorem fulfilled_eq_flatMap {xs : List Collection} (hxs : ∀ x ∈ xs, x.Steady) :
    fulfilled xs = xs.flatMap fun x => granted (namesOf xs) x.script :=
  performed_eq_flatMap hxs (.refl _) fun _ hx _ => symbols_namesOf hx

/-! ## Records in another order -/

theorem flatMap_perm {α β : Type} {f : α → List β} {xs xs' : List α} (h : xs.Perm xs')
    (hone : xs.Pairwise fun x y => f x = [] ∨ f y = []) : xs.flatMap f = xs'.flatMap f := by
  induction h with
  | nil => rfl
  | cons x _ ih => rw [List.flatMap_cons, List.flatMap_cons, ih hone.tail]
  | swap x y xs =>
    simp only [List.flatMap_cons]
    rcases (List.pairwise_cons.mp hone).1 x List.mem_cons_self with hy | hx
    · rw [hy, List.nil_append, List.nil_append]
    · rw [hx, List.nil_append, List.nil_append]
  | trans h₁ _ ih₁ ih₂ => rw [ih₁ hone, ih₂ (h₁.pairwise hone fun h => h.symm)]

theorem namesOf_perm {xs xs' : List Collection} (h : xs.Perm xs') : namesOf xs = namesOf xs' := by
  unfold namesOf
  congr 1
  · funext name
    exact h.any_eq
  · funext name
    exact h.any_eq

/-- A record does not depend on the numbers of symbols. Depths that are enough to see all methods
give the same. -/
theorem record_move {r r' : Registry} {φ : Nat → Nat} {P : Nat → Prop}
    (h : ∀ id, P id → ∃ i, r.get? id = some i ∧ r'.get? (φ id) = some (i.move φ) ∧
      ∀ m ∈ i.methods.values, P m ∧ id < m ∧ φ id < φ m) {id : Nat}
        (hid : P id) {depth depth' : Nat}
    (hdepth : r.size ≤ id + depth) (hdepth' : r'.size ≤ φ id + depth') :
    r.record depth id = r'.record depth' (φ id) := by
  induction depth generalizing id depth' with
  | zero =>
    obtain ⟨i, hi, -⟩ := h id hid
    have hlt : id < r.size := Registry.lt_size_of_get? hi
    omega
  | succ depth ih =>
    obtain ⟨i, hi, hi', hmethods⟩ := h id hid
    have hlt : φ id < r'.size := Registry.lt_size_of_get? hi'
    cases depth' with
    | zero => omega
    | succ depth' =>
      have hbelow : i.methods.values.map (r.record depth) =
          (i.move φ).methods.values.map (r'.record depth') := by
        have hvalues : (i.move φ).methods.values = i.methods.values.map φ := by
          simp [Symbol.move, Table.values]
        rw [hvalues, List.map_map]
        refine List.map_congr_left fun m hm => ?_
        obtain ⟨hm', hlt₁, hlt₂⟩ := hmethods m hm
        exact ih hm' (by omega) (by omega)
      rw [Registry.record, Registry.record, hi, hi']
      simp only [hbelow]
      rfl

section Perm

variable {k : Nat} {xs xs' : List Collection} {φ : Nat → Nat}

theorem Moves.number_eq (h : Moves k xs xs' φ) (hperm : xs.Perm xs') (g : Handle) :
    numberOf g k xs' = (numberOf g k xs).map φ := by
  cases hid : numberOf g k xs with
  | some id => exact h.number g id hid
  | none =>
    refine Option.eq_none_iff_forall_ne_some.mpr fun id' hid' => ?_
    obtain ⟨x, hx, hsome⟩ := numberOf_isSome.mp (Option.isSome_iff_exists.mpr ⟨id', hid'⟩)
    have hfound := numberOf_isSome (k := k).mpr ⟨x, hperm.mem_iff.mpr hx, hsome⟩
    rw [hid] at hfound
    cases hfound

theorem Moves.number_iff (h : Moves k xs xs' φ) (hperm : xs.Perm xs') (g : Handle) (id : Nat) :
    numberOf g k xs' = some (φ id) ↔ numberOf g k xs = some id := by
  rw [h.number_eq hperm]
  exact Option.map_eq_some_iff.trans ⟨fun ⟨id', hid', heq⟩ => h.injective id' id heq ▸ hid',
    fun hid => ⟨id, hid, rfl⟩⟩

/-- In each order a symbol gets what its own file adds to it. -/
theorem filterMap_fulfilled_perm (hperm : xs.Perm xs') (hxs : ∀ x ∈ xs, x.Steady)
    (hapart : xs.Pairwise Collection.Apart)
    {id : Nat} {i : Symbol} (hi : symbolIn k xs id = some i) {f : Request → Option String}
    (hf : Adds (numberOf · k xs) id f) :
    (fulfilled xs).filterMap f = (fulfilled xs').filterMap f := by
  have hxs' : ∀ x ∈ xs', x.Steady := fun x hx => hxs x (hperm.mem_iff.mpr hx)
  rw [fulfilled_eq_flatMap hxs, fulfilled_eq_flatMap hxs', ← namesOf_perm hperm,
    List.filterMap_flatMap, List.filterMap_flatMap]
  refine flatMap_perm hperm (hapart.imp_of_mem fun {x y} hx hy hxy => ?_)
  refine (hxy.silent (hxs x hx).isLocal (hxs y hy).isLocal hf (fun x hx => (hxs x hx).whole) hi).imp
    ?_ ?_
  · exact fun hsilent => hsilent.filterMap_granted _
  · exact fun hsilent => hsilent.filterMap_granted _

/-- After profiles in two orders, a symbol is the same but for its number and those of its
methods. -/
theorem Profiled.get?_perm {r : Registry} {s s' : Scene Profiler} (h : Profiled r xs s)
    (h' : Profiled r xs' s')
    (hφ : Moves r.size xs xs' φ) (hperm : xs.Perm xs') (hxs : ∀ x ∈ xs, x.Steady)
    (hapart : xs.Pairwise Collection.Apart) {id : Nat} {i : Symbol} (hle : r.size ≤ id)
    (hi : symbolIn r.size xs id = some i) :
    ∃ j, s.shared.registry.get? id = some j ∧ s'.shared.registry.get? (φ id) = some (j.move φ) ∧
      j.methods = i.methods := by
  have hxs' : ∀ x ∈ xs', x.Steady := fun x hx => hxs x (hperm.mem_iff.mpr hx)
  have hfind (g : Handle) : g.find (classesOf r xs') (symbolsOf r xs') = some (φ id) ↔
      g.find (classesOf r xs) (symbolsOf r xs) = some id := by
    rw [find_project fun x hx => (hxs x hx).whole, find_project fun x hx => (hxs' x hx).whole]
    exact hφ.number_iff hperm g id
  have hnumber : (fun g : Handle => g.find (classesOf r xs) (symbolsOf r xs)) =
      (numberOf · r.size xs) :=
    funext (find_project (fun x hx => (hxs x hx).whole) r)
  have hdependency := filterMap_fulfilled_perm hperm hxs hapart hi
    (hnumber ▸ adds_dependency (classesOf r xs) (symbolsOf r xs) id)
  have hsuper := filterMap_fulfilled_perm hperm hxs hapart hi
    (hnumber ▸ adds_super (classesOf r xs) (symbolsOf r xs) id)
  refine ⟨_, h.get? hle hi, ?_, rfl⟩
  rw [h'.get? (hφ.high hle) (hφ.symbol id i hle hi), dependency?_congr hfind, super?_congr hfind,
    hdependency, hsuper]
  rfl

end Perm

namespace Profiler

/-- The record of a symbol. -/
def recordOf (s : Scene Profiler) (id : SymbolId) : Json :=
  s.shared.registry.record (s.shared.registry.size + 1) id

/-- The class, interface or method with a name. -/
def declared? (s : Scene Profiler) (name : String) : Option SymbolId :=
  (s.self.symbols.get? name).filter fun id => (s.shared.registry.get? id).any fun i =>
  i.kind != .import

/-- Two profiles that say the same under every name. -/
structure Alike (s s' : Scene Profiler) : Prop where
  classes : ∀ name, (classTable s).contains name = (classTable s').contains name
  symbols : ∀ name, s.self.symbols.contains name = s'.self.symbols.contains name
  classRecords : ∀ name, ((classTable s).get? name).map (recordOf s) =
    ((classTable s').get? name).map (recordOf s')
  records : ∀ name, (declared? s name).map (recordOf s) = (declared? s' name).map (recordOf s')
  cells : ∀ p q, cell s.shared.numbering s.self.matrix p q =
    cell s'.shared.numbering s'.self.matrix p q

section Order

variable {r : Registry} {xs xs' : List Collection} {s s' : Scene Profiler} {φ : Nat → Nat}

/-- In another order a symbol has the same record. -/
theorem recordOf_perm (h : Profiled r xs s) (h' : Profiled r xs' s') (hφ : Moves r.size xs xs' φ)
    (hperm : xs.Perm xs')
    (hxs : ∀ x ∈ xs, x.Steady) (hapart : xs.Pairwise Collection.Apart) {id : Nat} {i : Symbol}
    (hle : r.size ≤ id)
    (hi : symbolIn r.size xs id = some i) : recordOf s id = recordOf s' (φ id) := by
  have hwhole : ∀ x ∈ xs, x.Whole := fun x hx => (hxs x hx).whole
  have hwhole' : ∀ x ∈ xs', x.Whole := fun x hx => hwhole x (hperm.mem_iff.mpr hx)
  refine record_move (P := fun id => r.size ≤ id ∧ ∃ i, symbolIn r.size xs id = some i)
    (fun id hid => ?_)
    ⟨hle, i, hi⟩ (by omega) (by omega)
  obtain ⟨hle, i, hi⟩ := hid
  obtain ⟨j, hj, hj', hmethods⟩ := h.get?_perm h' hφ hperm hxs hapart hle hi
  refine ⟨j, hj, hj', fun m hm => ?_⟩
  rw [hmethods] at hm
  obtain ⟨hlt, i', hi'⟩ := symbolIn_methods hwhole hle hi hm
  have hm' : φ m ∈ (i.move φ).methods.values := by
    rw [show (i.move φ).methods.values = i.methods.values.map φ by simp [Symbol.move, Table.values]]
    exact List.mem_map_of_mem hm
  refine ⟨⟨by omega, i', hi'⟩, hlt, ?_⟩
  exact (symbolIn_methods hwhole' (hφ.high hle) (hφ.symbol id i hle hi) hm').1

/-- The classes and methods that are known after a profile are those that were collected. -/
theorem declared?_eq (h : Profiled r xs s) (hwhole : ∀ x ∈ xs, x.Whole) (name : String) :
    declared? s name = (numberOf (.ofSymbol name) r.size xs).filter fun id =>
      (s.shared.registry.get? id).any fun i => i.kind != .import := by
  have hfind : numberOf (.ofSymbol name) r.size xs = (startOf r xs).symbols.get? name :=
    (find_project hwhole r (.ofSymbol name)).symm
  unfold declared?
  rw [hfind]
  cases hid : (startOf r xs).symbols.get? name with
  | some id => rw [show s.self.symbols.get? name = some id from h.done.kept name id hid]
  | none =>
    refine Option.eq_none_iff_forall_ne_some.mpr fun id hsome => ?_
    obtain ⟨hid', hkind⟩ := Option.filter_eq_some_iff.mp hsome
    rcases h.done.fresh name id hid' with hold | ⟨-, i, hi, himport⟩
    · rw [hid] at hold
      cases hold
    · change s.shared.registry.get? id = some i at hi
      rw [hi, Option.any_some, himport] at hkind
      cases hkind

theorem alike_of_perm (h : Profiled r xs s) (h' : Profiled r xs' s') (hperm : xs.Perm xs')
    (hxs : ∀ x ∈ xs, x.Steady) (hapart : xs.Pairwise Collection.Apart) : Alike s s' := by
  have hwhole : ∀ x ∈ xs, x.Whole := fun x hx => (hxs x hx).whole
  have hxs' : ∀ x ∈ xs', x.Steady := fun x hx => hxs x (hperm.mem_iff.mpr hx)
  have hwhole' : ∀ x ∈ xs', x.Whole := fun x hx => (hxs' x hx).whole
  obtain ⟨φ, hφ⟩ := moves_perm hperm r.size hwhole hapart
  have hnames := namesOf_perm hperm
  have hfulfilled : (fulfilled xs).Perm (fulfilled xs') := by
    rw [fulfilled_eq_flatMap hxs, fulfilled_eq_flatMap hxs', hnames]
    exact hperm.flatMap_right _
  have hclasses (name : String) : (classTable s).get? name =
      numberOf (.ofClass name) r.size xs := by
    rw [h.classTable, ← find_project hwhole r]
    rfl
  have hclasses' (name : String) : (classTable s').get? name =
      numberOf (.ofClass name) r.size xs' := by
    rw [h'.classTable, ← find_project hwhole' r]
    rfl
  refine ⟨fun name => ?_, fun name => ?_, fun name => ?_, fun name => ?_, fun p q => ?_⟩
  · rw [h.classTable, h'.classTable, contains_classesOf, contains_classesOf, hnames]
  · rw [h.known, h'.known, Bool.eq_iff_iff, Names.symbols_after, Names.symbols_after, hnames]
    simp only [hfulfilled.mem_iff]
  · rw [hclasses, hclasses', hφ.number_eq hperm]
    cases hid : numberOf (.ofClass name) r.size xs with
    | none => rfl
    | some id =>
      obtain ⟨i, hi, -⟩ := symbolIn_numberOf hwhole hid
      exact congrArg some (recordOf_perm h h' hφ hperm hxs hapart (le_numberOf hid) hi)
  · rw [declared?_eq h hwhole, declared?_eq h' hwhole', hφ.number_eq hperm]
    cases hid : numberOf (.ofSymbol name) r.size xs with
    | none => rfl
    | some id =>
      obtain ⟨i, hi, -⟩ := symbolIn_numberOf hwhole hid
      obtain ⟨j, hj, hj', -⟩ := h.get?_perm h' hφ hperm hxs hapart (le_numberOf hid) hi
      have hrecord := recordOf_perm h h' hφ hperm hxs hapart (le_numberOf hid) hi
      have hkind : (j.move φ).kind = j.kind := rfl
      simp only [Option.map_some, Option.filter_some, hj, hj', Option.any_some, hkind]
      split
      · exact congrArg some hrecord
      · rfl
  · rw [h.cell_eq, h'.cell_eq, hnames, interactions, interactions, hfulfilled.count_eq]

end Order

variable {parse : Parser} {fs : Files}

section Alone

variable {files : List String} {x : Collection} (hx : x ∈ files.filterMap (alone parse fs))
include hx

theorem whole_alone : x.Whole :=
  have ⟨_, hbefore, hmade⟩ := alone_eq_some (alone_of_mem hx)
  hmade.whole hbefore

variable (hparse : parse = Java.parse ∨ ∀ text, Regular (parse text).tree)
include hparse

/-- What is collected from files of a parser that keeps to the grammar. -/
theorem regular_alone : Regular x.tree := by
  obtain ⟨-, -, hmade⟩ := alone_eq_some (alone_of_mem hx)
  rw [hmade.parsed]
  rcases hparse with rfl | hregular
  · exact parse_regular x.source
  · exact hregular x.source

theorem local_alone (hplain : ∀ name ∈ importNames x.tree, '(' ∉ name.toList) : x.Local := by
  obtain ⟨-, -, hmade⟩ := alone_eq_some (alone_of_mem hx)
  exact hmade.local ⟨(regular_alone hx hparse).headsFirst, hplain⟩

theorem steady_alone (hdotted : ∀ name ∈ importNames x.tree, Dotted name) : x.Steady := by
  have hplain : ∀ name ∈ importNames x.tree, '(' ∉ name.toList :=
    fun name hname => (hdotted name hname).2.1
  exact ⟨whole_alone hx, regular_alone hx hparse, local_alone hx hparse hplain, hdotted⟩

end Alone

/-- **The order of the files does not matter.** Take files that can all be collected, that share no
name of a symbol, and whose imports are of dotted names. Profiles of them in two orders both come to
their end and say the same: they know the same classes and the same symbols, the records of classes
and methods are the same, with their supertypes, dependencies and methods, and so are the counts for
every two classes. This is so whether or not the analyses of some files are given up. -/
theorem file_order_irrelevant (hparse : parse = Java.parse ∨ ∀ text, Regular (parse text).tree)
    {files files' : List String} (hperm : files.Perm files') (shared : Shared)
    (hcollects : ∀ file ∈ files, collects parse fs file = true)
    (hapart : (files.filterMap (alone parse fs)).Pairwise Collection.Apart)
    (hdotted : ∀ x ∈ files.filterMap (alone parse fs), ∀ name ∈ importNames x.tree, Dotted name) :
    ∃ s s', (profile parse fs false).run.run (opened files shared) = (.ok (), s) ∧
      (profile parse fs false).run.run (opened files' shared) = (.ok (), s') ∧ Alike s s' := by
  obtain ⟨s, hrun, hs, -⟩ := profile_profiled hcollects shared
  obtain ⟨s', hrun', hs', -⟩ :=
    profile_profiled (fun file hfile => hcollects file (hperm.mem_iff.mpr hfile)) shared
  exact ⟨s, s', hrun, hrun', alike_of_perm hs hs' (hperm.filterMap _)
    (fun x hx => steady_alone hx hparse (hdotted x hx)) hapart⟩

/-- The import of a name in a package. -/
def importOf (package name : String) : ParseTree :=
  branch .importDeclaration [leaf .kwImport "import",
    branch .qualifiedName [named package, leaf .dot ".", named name], leaf .semi ";"]

/-- Two files: a class with a field of an imported class and one of an unknown class, and the
imported class. -/
def importTrees : List (String × ParseTree) :=
  [("A", branch .compilationUnit [importOf "q" "B",
    classNamed (named "A") [fieldOf "B", fieldOf "X"]]),
    ("B", branch .compilationUnit [packageOf "q", classNamed (named "B") []])]

def importFiles : Files := ⟨[(["A.java"], .text "A"), (["B.java"], .text "B")]⟩

/-- Both orders of the two files give the same profile, though the analysis of the first file is
given up. -/
theorem importFiles_alike :
    (∀ file ∈ ["A.java", "B.java"], collects (parserOf importTrees) importFiles file = true) ∧
    (["A.java", "B.java"].filterMap (alone (parserOf importTrees) importFiles)).Pairwise
      Collection.Apart ∧
    (∀ x ∈ ["A.java", "B.java"].filterMap (alone (parserOf importTrees) importFiles),
      ∀ name ∈ importNames x.tree, Dotted name) ∧
    ∃ s s', (profile (parserOf importTrees) importFiles false).run.run
      (opened ["A.java", "B.java"] {}) = (.ok (), s) ∧
      (profile (parserOf importTrees) importFiles false).run.run (opened ["B.java", "A.java"] {}) =
        (.ok (), s') ∧
      Alike s s' ∧ cell s'.shared.numbering s'.self.matrix "A" "q.B" = some 1 := by
  have hregular : ∀ t ∈ importTrees, Regular t.2 := by decide +kernel
  have hcollects : ∀ file ∈ ["A.java", "B.java"], collects (parserOf importTrees) importFiles file =
      true := by
    decide +kernel
  have hapart : (["A.java", "B.java"].filterMap (alone (parserOf importTrees) importFiles)).Pairwise
      Collection.Apart := by
    decide +kernel
  have hdotted : ∀ x ∈ ["A.java", "B.java"].filterMap (alone (parserOf importTrees) importFiles),
      ∀ name ∈ importNames x.tree, Dotted name := by decide +kernel
  have hcell : cell ((profile (parserOf importTrees) importFiles false).run.run
      (opened ["B.java", "A.java"] {})).2.shared.numbering
        ((profile (parserOf importTrees) importFiles false).run.run
      (opened ["B.java", "A.java"] {})).2.self.matrix "A" "q.B" = some 1 := by decide +kernel
  obtain ⟨s, s', hs, hs', halike⟩ :=
    file_order_irrelevant (.inr (forall_parserOf (by decide) hregular))
    (List.Perm.swap "B.java" "A.java" []) {} hcollects hapart hdotted
  rw [hs'] at hcell
  exact ⟨hcollects, hapart, hdotted, s, s', hs, hs', halike, hcell⟩

end Profiler

end Coupling.Project
