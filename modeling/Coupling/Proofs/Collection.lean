import Coupling.Proofs.Declarations

/-!
# What a collection leaves

The outline of a tree numbers its declarations in order, and a declaration stands in one that was
numbered before it (`outline_ordered`). A reading that takes such items in order is a `Pass`. From
its end state the tables can be read off the items: under each full name stands the declaration that
came last with that name, and each simple name stands for what it was last bound to
(`Pass.symbols_eq`, `Pass.classes_eq`, `Pass.full_eq`). Symbols that were there before the
collection are left as they were (`Pass.old`).

A collection is one pass over the outline of the tree, taken twice (`collect_pass`).
-/

namespace Coupling.Project

open Java (ParseTree)

/-! ## The order of an outline -/

/-- The declarations are numbered from `next` on, and each stands in none or in one with a lower
number, but not below `start`. -/
def Ordered (start : Nat) : Nat → List Item → Prop
  | _, [] => True
  | next, .declaration d :: items =>
    d.id = next ∧ (∀ o, d.scope = some o → start ≤ o ∧ o < next) ∧ Ordered start (next + 1) items
  | next, _ :: items => Ordered start next items

theorem declarations_append (xs ys : List Item) :
    declarations (xs ++ ys) = declarations xs ++ declarations ys :=
  List.filterMap_append

variable {start next : Nat} {items : List Item} {c : Collected} {registry : Registry}
  {tree : ParseTree}

theorem Ordered.append {xs ys : List Item} (hx : Ordered start next xs)
    (hy : Ordered start (next + (declarations xs).length) ys) : Ordered start next (xs ++ ys) := by
  induction xs generalizing next with
  | nil => exact hy
  | cons item xs ih =>
    cases item with
    | package t | «import» t => exact ih hx hy
    | declaration d =>
      refine ⟨hx.1, hx.2.1, ih hx.2.2 ?_⟩
      have hlen : next + (declarations (.declaration d :: xs)).length = next + 1 +
          (declarations xs).length := by
        show next + ((declarations xs).length + 1) = _
        omega
      rwa [hlen] at hy

mutual

/-- The outline of a tree is in order. -/
theorem outline_ordered : ∀ (t : ParseTree) {scope : Option SymbolId} {next : Nat}, start ≤ next →
    (∀ o, scope = some o → start ≤ o ∧ o < next) → Ordered start next (outline scope next t)
  | .token _, _, _, _, _ | .skipped _, _, _, _, _ | .missing _, _, _, _, _ => trivial
  | .node info cs, scope, next, hstart, hscope => by
    have hinside : ∀ o, some next = some o → start ≤ o ∧ o < next + 1 := by
      intro o ho
      cases ho
      exact ⟨hstart, Nat.lt_succ_self next⟩
    rw [outline]
    cases Role.ofForm info.form with
    | package | «import» => exact trivial
    | type kind | method =>
      exact ⟨rfl, hscope, outlineOf_ordered cs (Nat.le_succ_of_le hstart) hinside⟩
    | field | other => exact outlineOf_ordered cs hstart hscope

theorem outlineOf_ordered : ∀ (ts : List ParseTree) {scope : Option SymbolId} {next : Nat},
    start ≤ next → (∀ o, scope = some o → start ≤ o ∧ o < next) →
    Ordered start next (outlineOf scope next ts)
  | [], _, _, _, _ => trivial
  | t :: ts, scope, next, hstart, hscope => by
    rw [outlineOf]
    refine Ordered.append (outline_ordered t hstart hscope) (outlineOf_ordered ts (by omega) ?_)
    intro o ho
    obtain ⟨hlow, hhigh⟩ := hscope o ho
    exact ⟨hlow, Nat.lt_of_lt_of_le hhigh (Nat.le_add_right _ _)⟩

end

/-- The numbers of an outline are given without gaps. -/
theorem Ordered.map_id (h : Ordered start next items) :
    (declarations items).map (·.id) = List.range' next (declarations items).length := by
  induction items generalizing next with
  | nil => rfl
  | cons item items ih =>
    cases item with
    | package t | «import» t => exact ih h
    | declaration d =>
      show d.id :: (declarations items).map (·.id) =
        List.range' next ((declarations items).length + 1)
      rw [h.1, ih h.2.2, List.range'_succ]

section Ids

variable {start next : Nat} {items : List Item} (h : Ordered start next items) {d d' : Declaration}
include h

theorem Ordered.id_range (hd : d ∈ declarations items) :
    next ≤ d.id ∧ d.id < next + (declarations items).length := by
  rw [← List.mem_range'_1, ← h.map_id]
  exact List.mem_map_of_mem hd

theorem Ordered.exists_of_id {i : Nat} (hle : next ≤ i)
    (hlt : i < next + (declarations items).length) :
    ∃ d ∈ declarations items, d.id = i := by
  rw [← List.mem_map, h.map_id, List.mem_range'_1]
  exact ⟨hle, hlt⟩

theorem Ordered.pairwise : (declarations items).Pairwise fun d e => d.id < e.id := by
  rw [← List.pairwise_map, h.map_id]
  exact List.pairwise_lt_range'

/-- No two declarations have the same number. -/
theorem Ordered.eq_of_id (hd : d ∈ declarations items) (hd' : d' ∈ declarations items)
    (hid : d.id = d'.id) : d = d' :=
  List.inj_on_of_nodup_map (h.map_id ▸ List.nodup_range') hd hd' hid

end Ids

/-- A declaration stands in one with a lower number. -/
theorem Ordered.scope_lt (h : Ordered start next items) {d : Declaration}
    (hd : d ∈ declarations items) {o : SymbolId}
    (ho : d.scope = some o) : start ≤ o ∧ o < d.id := by
  induction items generalizing next with
  | nil => cases hd
  | cons item items ih =>
    cases item with
    | package t | «import» t => exact ih h hd
    | declaration e =>
      rcases List.mem_cons.mp (show d ∈ e :: declarations items from hd) with rfl | hmem
      · rw [h.1]
        exact h.2.1 o ho
      · exact ih h.2.2 hmem

/-! ## Passes -/

/-- A reading that takes items in order and comes to its end. -/
inductive Pass (start : Nat) : Collected → List Item → Collected → Prop where
  | done (c : Collected) : Pass start c [] c
  | package {c c' : Collected} {t : ParseTree} {items : List Item} (name : String) :
      Pass start { c with package := name, full := c.full.update javaLang } items c' →
      Pass start c (.package t :: items) c'
  | «import» {c c' : Collected} {t : ParseTree} {items : List Item} :
      Pass start { c with
        full := c.full.put (Text.afterLast (Collect.importedName t) '.') (Collect.importedName t) }
        items c' →
      Pass start c (.import t :: items) c'
  | declaration {c c' : Collected}
      {d : Declaration} {s : Symbol} {items : List Item} (hid : d.id = c.registry.size)
      (hscope : ∀ o, d.scope = some o → start ≤ o ∧ o < c.registry.size) (hs : Describes c d s) :
      Pass start (c.declare d s) items c' → Pass start c (.declaration d :: items) c'

theorem pass_of_takeAll (file source : String) {c' : Collected}
    (hitems : Ordered start c.registry.size items)
    (h : (items.forM (Collect.take file source)).run c = .ok ((), c')) : Pass start c items c' := by
  induction items generalizing c with
  | nil =>
    cases h
    exact .done c'
  | cons item items ih =>
    obtain ⟨c₁, h₁, h₂⟩ := Collect.takeAll_cons_eq_ok h
    cases item with
    | package t =>
      obtain ⟨name, rfl⟩ := Collect.take_package h₁
      exact .package name (ih hitems h₂)
    | «import» t =>
      have hc := Collect.take_import h₁
      subst hc
      exact .import (ih hitems h₂)
    | declaration d =>
      obtain ⟨s, hs, rfl⟩ := Collect.take_declaration h₁
      refine .declaration hitems.1 hitems.2.1 hs (ih ?_ h₂)
      rw [Collect.size_declare]
      exact hitems.2.2

/-- The items of a collection: the outline of the tree twice, with numbers of its own each time. -/
def firstOutline (registry : Registry) (tree : ParseTree) : List Item :=
  outline none registry.size tree

def secondOutline (registry : Registry) (tree : ParseTree) : List Item :=
  outline none (registry.size + (declarations (firstOutline registry tree)).length) tree

theorem secondOutline_ordered (registry : Registry) (tree : ParseTree) :
    Ordered registry.size (registry.size + (declarations (firstOutline registry tree)).length)
      (secondOutline registry tree) :=
  outline_ordered tree (Nat.le_add_right _ _) (fun _ ho => by cases ho)

theorem outlines_ordered (registry : Registry) (tree : ParseTree) :
    Ordered registry.size registry.size (firstOutline registry tree ++
      secondOutline registry tree) :=
  (outline_ordered tree (Nat.le_refl _) (fun _ ho => by cases ho)).append
    (secondOutline_ordered registry tree)

theorem mem_outlines {d : Declaration} (hd : d ∈ declarations (secondOutline registry tree)) :
    d ∈ declarations (firstOutline registry tree ++ secondOutline registry tree) := by
  rw [declarations_append]
  exact List.mem_append_right _ hd

/-- A collection takes the items of the outline of the tree twice. -/
theorem collect_takeAll {file source : String} (h : collect registry file source tree = .ok c) :
    ((firstOutline registry tree ++ secondOutline registry tree).forM
      (Collect.take file source)).run { registry } =
      .ok ((), c) := by
  have happend : (firstOutline registry tree ++ secondOutline registry tree).forM
      (Collect.take file source) =
      ((firstOutline registry tree).forM (Collect.take file source) >>= fun _ =>
        (secondOutline registry tree).forM (Collect.take file source)) := List.forM_append
  unfold collect at h
  simp only at h
  cases hread : ((Collect.visit file source none tree >>= fun _ =>
      Collect.visit file source none tree).run
      { registry } : Except Fault (Unit × Collected)) with
  | error f =>
    rw [hread] at h
    cases h
  | ok r =>
    obtain ⟨⟨⟩, c''⟩ := r
    rw [hread] at h
    cases h
    obtain ⟨⟨⟩, c₁, h₁, h₂⟩ := Collect.bind_eq_ok.mp hread
    rw [Collect.visit_eq] at h₁ h₂
    rw [happend]
    refine Collect.bind_eq_ok.mpr ⟨(), c₁, h₁, ?_⟩
    rwa [Collect.size_takeAll h₁] at h₂

/-- A collection is one pass over the outline of the tree, taken twice. -/
theorem collect_pass {file source : String} (h : collect registry file source tree = .ok c) :
    Pass registry.size { registry } (firstOutline registry tree ++ secondOutline registry tree) c :=
  pass_of_takeAll file source (outlines_ordered registry tree) (collect_takeAll h)

/-! ## Symbols after a pass -/

/-- A symbol without its methods. -/
def Symbol.bare (s : Symbol) : Symbol := { s with methods := ∅ }

section Declare

variable (c : Collected) (d : Declaration) (s : Symbol)

/-- A declaration adds its symbol and changes no symbol but the methods of the one around it. -/
theorem get?_declare (id : SymbolId) :
    (c.declare d s).registry.get? id =
      if d.kind = .method ∧ d.scope = some id then
        ((c.registry.add s).get? id).map fun o =>
          { o with methods := o.methods.put s.fullName c.registry.size }
      else (c.registry.add s).get? id := by
  by_cases hkind : d.kind = .method
  · cases hscope : d.scope with
    | none =>
      rw [if_neg (by rintro ⟨-, h⟩; cases h)]
      unfold Collected.declare
      rw [hkind, hscope]
    | some owner =>
      rw [Collected.declare_method hkind hscope]
      simp only [Registry.get?_change, hkind, true_and, Option.some_inj]
  · rw [Collected.declare_type hkind, if_neg fun h => hkind h.1]

theorem get?_declare_bare {id : SymbolId} {o : Symbol} (h : (c.registry.add s).get? id = some o) :
    ∃ o', (c.declare d s).registry.get? id = some o' ∧ o'.bare = o.bare := by
  rw [get?_declare, h]
  split
  · exact ⟨_, rfl, rfl⟩
  · exact ⟨o, rfl, rfl⟩

theorem methods_declare (hs : Describes c d s)
    (hscope : ∀ o, d.scope = some o → o < c.registry.size) (id : SymbolId) :
    (c.declare d s).registry.methods id =
      if d.kind = .method ∧ d.scope = some id
        then (c.registry.methods id).put s.fullName c.registry.size
      else c.registry.methods id := by
  have hadd : (c.registry.add s).methods id = c.registry.methods id :=
    Registry.methods_add hs.new.methods id
  unfold Registry.methods at hadd ⊢
  rw [get?_declare]
  split
  · next hin =>
    obtain ⟨o, ho⟩ := Registry.exists_get? (hscope id hin.2)
    rw [Registry.get?_add_of_lt s (hscope id hin.2), ho]
    rfl
  · exact hadd

end Declare

namespace Pass

variable {start : Nat} {c c' : Collected} {items : List Item}

/-- A pass changes nothing of a symbol that is there but its methods. -/
theorem kept (h : Pass start c items c') {id : SymbolId} {o : Symbol}
    (ho : c.registry.get? id = some o) :
    ∃ o', c'.registry.get? id = some o' ∧ o'.bare = o.bare := by
  induction h generalizing o with
  | done c => exact ⟨o, ho, rfl⟩
  | package name _ ih | «import» _ ih => exact ih ho
  | @declaration c c' d s items hid hscope hs _ ih =>
    have hadd : (c.registry.add s).get? id = some o := by
      rw [Registry.get?_add_of_lt s (Registry.lt_size_of_get? ho), ho]
    obtain ⟨o', ho', hbare⟩ := get?_declare_bare c d s hadd
    obtain ⟨o'', ho'', hbare'⟩ := ih ho'
    exact ⟨o'', ho'', hbare'.trans hbare⟩

/-- Symbols that were there before the pass began are left as they were. -/
theorem old (h : Pass start c items c') {id : SymbolId} (hid : id < start)
    (hsize : id < c.registry.size) :
    c'.registry.get? id = c.registry.get? id := by
  induction h with
  | done c => rfl
  | package name _ ih | «import» _ ih => exact ih hsize
  | @declaration c c' d s items _ hscope _ _ ih =>
    rw [ih (by rw [Collect.size_declare]; exact Nat.lt_succ_of_lt hsize), get?_declare, if_neg,
      Registry.get?_add_of_lt s hsize]
    rintro ⟨-, ho⟩
    exact absurd (hscope id ho).1 (Nat.not_le_of_lt hid)

/-- What a declaration's symbol is at the end of a pass. -/
theorem described (h : Pass start c items c') {d : Declaration} (hd : d ∈ declarations items) :
    c.registry.size ≤ d.id ∧ ∃ s, c'.registry.get? d.id = some s ∧ s.IsOf d ∧ s.dependency = [] ∧
      (d.kind ≠ .method → ∃ n, d.node.first? .identifier = some n ∧ n.text = s.shortName) := by
  induction h with
  | done c => cases hd
  | package name _ ih | «import» _ ih => exact ih hd
  | @declaration c c' d' s items hid hscope hs hrest ih =>
    rcases List.mem_cons.mp (show d ∈ d' :: declarations items from hd) with rfl | hmem
    · obtain ⟨o, ho, hbare⟩ := get?_declare_bare c d s (Registry.get?_add_self c.registry s)
      obtain ⟨o', ho', hbare'⟩ := hrest.kept ho
      have hall := hbare'.trans hbare
      have hkind := congrArg Symbol.kind hall
      have hdep := congrArg Symbol.dependency hall
      have hshort := congrArg Symbol.shortName hall
      have hstart := congrArg Symbol.startLine hall
      have hstop := congrArg Symbol.stopLine hall
      have hof : o'.IsOf d :=
        ⟨hkind.trans hs.isOf.kind, hstart.trans hs.isOf.start,
          hs.isOf.stop.trans (congrArg some hstop.symm)⟩
      refine ⟨Nat.le_of_eq hid.symm, o', by rw [hid]; exact ho', hof, hdep.trans hs.new.dependency,
        ?_⟩
      intro hne
      obtain ⟨n, hn, hname⟩ := hs.typeName hne
      exact ⟨n, hn, hname.trans hshort.symm⟩
    · obtain ⟨hle, hs'⟩ := ih hmem
      rw [Collect.size_declare] at hle
      exact ⟨Nat.le_of_succ_le hle, hs'⟩

/-- The names of a new symbol are its names at the end of the pass. -/
theorem names_declare (h : Pass start (c.declare d s) items c') :
    c'.registry.fullName c.registry.size = s.fullName ∧ c'.registry.shortName c.registry.size =
      s.shortName := by
  obtain ⟨o, ho, hbare⟩ := get?_declare_bare c d s (Registry.get?_add_self c.registry s)
  obtain ⟨o', ho', hbare'⟩ := h.kept ho
  have hall := hbare'.trans hbare
  have hfull := congrArg Symbol.fullName hall
  have hshort := congrArg Symbol.shortName hall
  exact ⟨(Registry.fullName_of_get? ho').trans hfull, (Registry.shortName_of_get? ho').trans hshort⟩

section

variable (h : Pass start c items c')
include h

/-- A method is declared in a symbol. -/
theorem exists_scope {d : Declaration} (hd : d ∈ declarations items) (hkind : d.kind = .method) :
    ∃ o, d.scope = some o := by
  induction h with
  | done c => cases hd
  | package name _ ih | «import» _ ih => exact ih hd
  | @declaration c c' d' s items hid hscope hs _ ih =>
    rcases List.mem_cons.mp (show d ∈ d' :: declarations items from hd) with rfl | hmem
    · exact Option.isSome_iff_exists.mp (hs.inScope hkind)
    · exact ih hmem

/-! ## Tables after a pass -/

/-- A symbol has the methods that are declared in it, each under its full name. -/
theorem methods_eq (id : SymbolId) :
    c'.registry.methods id = (c.registry.methods id).update
      ⟨((declarations items).filter fun d => d.kind = .method ∧ d.scope = some id).map fun d =>
        (c'.registry.fullName d.id, d.id)⟩ := by
  induction h with
  | done c => rfl
  | package name _ ih | «import» _ ih => exact ih
  | @declaration c c' d s items hid hscope hs hrest ih =>
    rw [ih, methods_declare c d s hs fun o ho => (hscope o ho).2]
    show _ = (c.registry.methods id).update
      ⟨((d :: declarations items).filter fun d => d.kind = .method ∧ d.scope = some id).map _⟩
    by_cases hin : d.kind = .method ∧ d.scope = some id
    · rw [if_pos hin, List.filter_cons_of_pos (by simpa using hin), List.map_cons, hid,
        hrest.names_declare.1]
      rfl
    · rw [if_neg hin, List.filter_cons_of_neg (by simpa using hin)]

/-- Under each full name stands the declaration that came last with it. -/
theorem symbols_eq :
    c'.symbols = c.symbols.update ⟨(declarations items).map fun d =>
      (c'.registry.fullName d.id, d.id)⟩ := by
  induction h with
  | done c => rfl
  | package name _ ih | «import» _ ih => exact ih
  | @declaration c c' d s items hid hscope hs hrest ih =>
    rw [ih]
    show _ = c.symbols.update ⟨(c'.registry.fullName d.id, d.id) :: (declarations items).map _⟩
    rw [hid, hrest.names_declare.1]
    rfl

/-- Under each full name stands the class or interface that came last with it. -/
theorem classes_eq :
    c'.classes = c.classes.update
      ⟨((declarations items).filter fun d => d.kind ≠ .method).map fun d =>
        (c'.registry.fullName d.id, d.id)⟩ := by
  induction h with
  | done c => rfl
  | package name _ ih | «import» _ ih => exact ih
  | @declaration c c' d s items hid hscope hs hrest ih =>
    rw [ih]
    show _ = c.classes.update ⟨((d :: declarations items).filter fun d => d.kind ≠ .method).map _⟩
    by_cases hkind : d.kind = .method
    · have hsame : (c.declare d s).classes = c.classes := by
        unfold Collected.declare
        rw [if_pos hkind]
      rw [List.filter_cons_of_neg (by simp [hkind]), hsame]
    · have hput : (c.declare d s).classes = c.classes.put s.fullName c.registry.size := by
        unfold Collected.declare
        rw [if_neg hkind]
      rw [List.filter_cons_of_pos (by simp [hkind]), List.map_cons, hid, hrest.names_declare.1,
        hput]
      rfl

end

/-! A pass that begins with no tables has in them only what it declares. -/

section

variable {registry : Registry} {name : String} {id m : SymbolId}
  (h : Pass start { registry } items c)
include h

theorem declared_of_symbol (hid : (name, id) ∈ c.symbols.entries) :
    ∃ d ∈ declarations items, d.id = id ∧ c.registry.fullName id = name := by
  rw [h.symbols_eq] at hid
  rcases Table.mem_entries_update hid with hmem | hnone
  · obtain ⟨d, hd, heq⟩ := List.mem_map.mp hmem
    cases heq
    exact ⟨d, hd, rfl, rfl⟩
  · cases hnone

theorem declared_of_class (hid : (name, id) ∈ c.classes.entries) :
    ∃ d ∈ declarations items, d.kind ≠ .method ∧ d.id = id ∧ c.registry.fullName id = name := by
  rw [h.classes_eq] at hid
  rcases Table.mem_entries_update hid with hmem | hnone
  · obtain ⟨d, hd, heq⟩ := List.mem_map.mp hmem
    cases heq
    obtain ⟨hin, hkind⟩ := List.mem_filter.mp hd
    exact ⟨d, hin, of_decide_eq_true hkind, rfl, rfl⟩
  · cases hnone

theorem declared_of_method (hid : registry.size ≤ id) (hm : m ∈ (c.registry.methods id).values) :
    ∃ d ∈ declarations items, d.kind = .method ∧ d.scope = some id ∧ d.id = m := by
  obtain ⟨e, hmem, rfl⟩ := List.mem_map.mp hm
  rw [h.methods_eq, Registry.methods_eq_empty hid] at hmem
  rcases Table.mem_entries_update hmem with hdeclared | hnone
  · obtain ⟨d, hd, heq⟩ := List.mem_map.mp hdeclared
    cases heq
    obtain ⟨hin, hmethod⟩ := List.mem_filter.mp hd
    obtain ⟨hkind, hscope⟩ := of_decide_eq_true hmethod
    exact ⟨d, hin, hkind, hscope, rfl⟩
  · cases hnone

end

/-- What an item binds simple names to. -/
def bindings (r : Registry) : Item → List (String × String)
  | .package _ => javaLang.entries
  | .import t => [(Text.afterLast (Collect.importedName t) '.', Collect.importedName t)]
  | .declaration d => [(r.shortName d.id, r.fullName d.id)]

/-- Each simple name stands for what it was last bound to. -/
theorem full_eq (h : Pass start c items c') :
    c'.full = c.full.update ⟨items.flatMap (bindings c'.registry)⟩ := by
  induction h with
  | done c => rfl
  | package name _ ih | «import» _ ih =>
    rw [ih, List.flatMap_cons, Table.update_append]
    rfl
  | @declaration c c' d s items hid hscope hs hrest ih =>
    rw [ih, List.flatMap_cons, Table.update_append]
    simp only [bindings, hid, hrest.names_declare]
    rfl

end Pass

end Coupling.Project
