import Coupling.Proofs.Rereading

/-!
# Two readings are enough

A file is read twice, so that in the second reading its methods can name types that are declared
further down. In a plain file (`Plain`) the second reading has got as far as one can: what the types
of a method are made of stands for the same at every later point (`Agree`), so that each method is
known by the signature that the names give in the end. A further reading then makes the same symbols
again, under the same names (`reading_settles`).

The names that types are made of are what counts here, not all names: a method may well be stored
under another name the second time, and what is said of its first symbol is then left standing.
-/

namespace Coupling.Project

open Java (ParseTree)
open Collect (visit visit_eq take)

/-! ## Readings one after the other -/

section Reading

variable {file source : String} {tree : ParseTree} {c c' : Collected}

theorem package_of_declarations {ds : List Declaration}
    (h : ((ds.map Item.declaration).forM (take file source)).run c = .ok ((), c')) :
    c'.package = c.package := by
  induction ds generalizing c with
  | nil =>
    cases h
    rfl
  | cons d ds ih =>
    obtain ⟨c₁, h₁, h₂⟩ := Collect.takeAll_cons_eq_ok h
    obtain ⟨s, -, rfl⟩ := Collect.take_declaration_eq_ok h₁
    rw [ih h₂, Collect.package_declare]

section

variable (hheads : HeadsFirst tree) (h : (visit file source none tree).run c = .ok ((), c'))
include hheads h

theorem package_of_visit :
    c'.package = packageAfter c.package tree :=
  package_of_declarations (Collect.visit_enter hheads h)

theorem pass_of_visit :
    Pass c.registry.size (c.enter tree)
      (((declared tree).map (Declaration.later c.registry.size)).map Item.declaration) c' :=
  pass_of_takeAll file source (Collect.ordered_later c.registry.size hheads)
    (Collect.visit_enter hheads h)

end

theorem declarations_map (ds : List Declaration) : declarations (ds.map Item.declaration) = ds := by
  unfold declarations
  rw [List.filterMap_map]
  exact List.filterMap_some

theorem size_of_visit (h : (visit file source none tree).run c = .ok ((), c')) :
    c'.registry.size = c.registry.size + (declared tree).length := by
  rw [visit_eq] at h
  rw [Collect.size_takeAll h, declarations_outline, List.length_map]

/-- What the declarations of a file let simple names stand for. -/
def ownBindings (tree : ParseTree) (k : Nat) (r : Registry) : List (String × String) :=
  (declared tree).map fun d => (r.shortName (d.id + k), r.fullName (d.id + k))

variable (hheads : HeadsFirst tree) (h : (visit file source none tree).run c = .ok ((), c'))
include hheads h

theorem full_of_visit :
    c'.full = c.full.update ⟨headBindings tree ++
      ownBindings tree c.registry.size c'.registry⟩ := by
  have hflat : (((declared tree).map (Declaration.later c.registry.size)).map
      Item.declaration).flatMap
      (Pass.bindings c'.registry) = ownBindings tree c.registry.size c'.registry := by
    rw [List.map_map, List.flatMap_map]
    exact List.map_eq_flatMap.symm
  rw [(pass_of_visit hheads h).full_eq, hflat, Table.update_append]
  rfl

theorem symbols_of_reading :
    c'.symbols = c.symbols.update ⟨(declared tree).map fun d =>
      (c'.registry.fullName (d.id + c.registry.size), d.id + c.registry.size)⟩ := by
  rw [(pass_of_visit hheads h).symbols_eq, declarations_map, List.map_map]
  rfl

theorem classes_of_reading :
    c'.classes = c.classes.update ⟨((declared tree).filter fun d => d.kind ≠ .method).map fun d =>
      (c'.registry.fullName (d.id + c.registry.size), d.id + c.registry.size)⟩ := by
  rw [(pass_of_visit hheads h).classes_eq, declarations_map, List.filter_map, List.map_map]
  rfl

theorem methods_of_reading (i : Nat) : c'.registry.methods (i + c.registry.size) = Table.update ∅
      ⟨((declared tree).filter fun e => e.kind = .method ∧ e.scope = some i).map fun e =>
        (c'.registry.fullName (e.id + c.registry.size), e.id + c.registry.size)⟩ := by
  have hscope (e : Declaration) : (e.later c.registry.size).scope = some (i + c.registry.size) ↔
      e.scope = some i := by
    unfold Declaration.later
    cases e.scope with
    | none | some o => simp
  have hfilter : (fun e : Declaration => decide (e.kind = .method ∧
      e.scope = some (i + c.registry.size))) ∘
      Declaration.later c.registry.size = fun e =>
        decide (e.kind = .method ∧ e.scope = some i) := by
    funext e
    exact decide_eq_decide.mpr (and_congr_right fun _ => hscope e)
  rw [(pass_of_visit hheads h).methods_eq, declarations_map, List.filter_map, List.map_map, hfilter]
  exact congrArg (Table.update · _) (Registry.methods_eq_empty (Nat.le_add_left _ _))

end Reading

/-! ## What any number of readings leave -/

/-- What readings of a file, begun with the symbols of a registry, have led to. -/
def Reached (registry : Registry) (file source : String) (c : Collected) : Prop :=
  ∃ items, Ordered registry.size registry.size items ∧
  (items.forM (take file source)).run { registry } = .ok ((), c)

namespace Reached

variable {registry : Registry} {file source : String} {tree : ParseTree} {c c' : Collected}

theorem begin (registry : Registry) (file source : String) :
    Reached registry file source { registry } :=
  ⟨[], trivial, rfl⟩

variable (h : Reached registry file source c)
include h

theorem size_le : registry.size ≤ c.registry.size := by
  obtain ⟨items, -, hitems⟩ := h
  rw [Collect.size_takeAll hitems]
  exact Nat.le_add_right _ _

theorem visit (hvisit : (visit file source none tree).run c = .ok ((), c')) :
    Reached registry file source c' := by
  obtain ⟨items, hordered, hitems⟩ := h
  have hsize := Collect.size_takeAll hitems
  refine ⟨items ++ outline none c.registry.size tree, hordered.append ?_, ?_⟩
  · rw [hsize]
    exact outline_ordered tree (Nat.le_add_right _ _) fun _ ho => by cases ho
  · rw [visit_eq] at hvisit
    have happend : (items ++ outline none c.registry.size tree).forM (take file source) =
        (items.forM (take file source) >>= fun _ =>
          (outline none c.registry.size tree).forM (take file source)) :=
      List.forM_append
    rw [happend]
    exact Collect.bind_eq_ok.mpr ⟨(), c, hitems, hvisit⟩

theorem nodup : c.classes.keys.Nodup ∧ c.symbols.keys.Nodup ∧ c.full.keys.Nodup := by
  obtain ⟨items, hordered, hitems⟩ := h
  have hpass := pass_of_takeAll file source hordered hitems
  rw [hpass.classes_eq, hpass.symbols_eq, hpass.full_eq]
  exact ⟨Table.nodup_keys_update _ List.nodup_nil, Table.nodup_keys_update _ List.nodup_nil,
    Table.nodup_keys_update _ List.nodup_nil⟩

/-- The numbers in the tables are those of symbols that were made since. -/
theorem mem_range {name : String} {id : SymbolId}
    (hid : c.classes.get? name = some id ∨ c.symbols.get? name = some id) :
    registry.size ≤ id ∧ id < c.registry.size := by
  obtain ⟨items, hordered, hitems⟩ := h
  have hpass := pass_of_takeAll file source hordered hitems
  have hrange {d : Declaration} (hd : d ∈ declarations items) : registry.size ≤ d.id ∧
      d.id < c.registry.size := by
    rw [Collect.size_takeAll hitems]
    exact hordered.id_range hd
  rcases hid with hid | hid
  · obtain ⟨d, hd, -, rfl, -⟩ := hpass.declared_of_class (Table.mem_entries_of_get? hid)
    exact hrange hd
  · obtain ⟨d, hd, rfl, -⟩ := hpass.declared_of_symbol (Table.mem_entries_of_get? hid)
    exact hrange hd

/-- A method has a later number than what it is declared in. -/
theorem methods_later {id m : SymbolId} (hid : registry.size ≤ id)
    (hm : m ∈ (c.registry.methods id).values) :
    id < m ∧ m < c.registry.size := by
  obtain ⟨items, hordered, hitems⟩ := h
  obtain ⟨d, hin, -, hscope, rfl⟩ :=
    (pass_of_takeAll file source hordered hitems).declared_of_method hid hm
  rw [Collect.size_takeAll hitems]
  exact ⟨(hordered.scope_lt hin hscope).2, (hordered.id_range hin).2⟩

end Reached

/-- What is known of a file says the same in two states: simple names stand for the same, and the
tables have the same names in the same order, with the same records. -/
structure Collected.Same (c c' : Collected) : Prop where
  package : c'.package = c.package
  full : c'.full = c.full
  classNames : c'.classes.keys = c.classes.keys
  classes : c'.registry.records c'.classes = c.registry.records c.classes
  symbolNames : c'.symbols.keys = c.symbols.keys
  symbols : c'.registry.records c'.symbols = c.registry.records c.symbols

namespace Collected.Same

theorem refl (c : Collected) : c.Same c := ⟨rfl, rfl, rfl, rfl, rfl, rfl⟩

theorem trans {c₁ c₂ c₃ : Collected} (h : c₁.Same c₂) (h' : c₂.Same c₃) : c₁.Same c₃ :=
  ⟨h'.package.trans h.package, h'.full.trans h.full, h'.classNames.trans h.classNames,
    h'.classes.trans h.classes, h'.symbolNames.trans h.symbolNames, h'.symbols.trans h.symbols⟩

end Collected.Same

/-! ## A reading that makes the same symbols again -/

/-- The records of two tables with the same names are the same if those under each name are. -/
theorem Registry.records_congr {r r' : Registry} {t t' : Table SymbolId} (hnodup : t.keys.Nodup)
    (hkeys : t'.keys = t.keys)
    {φ : SymbolId → SymbolId} (h : ∀ name id, t.get? name = some id → t'.get? name = some (φ id) ∧
      r.record (r.size + 1) id = r'.record (r'.size + 1) (φ id)) : r'.records t' = r.records t := by
  unfold Registry.records
  rw [Table.values_eq_filterMap hnodup, Table.values_eq_filterMap (hkeys ▸ hnodup), hkeys,
    List.map_filterMap, List.map_filterMap]
  refine congrArg Json.arr (List.filterMap_congr fun name hname => ?_)
  obtain ⟨id, hid⟩ := Table.contains_iff_exists.mp (Table.contains_iff_mem_keys.mpr hname)
  obtain ⟨hid', hrecord⟩ := h name id hid
  rw [hid, hid', Option.map_some, Option.map_some, hrecord]

section Repeated

variable {registry : Registry} {file source : String} {tree : ParseTree} {c c' c'' : Collected}

/-- Symbols of the last reading move up by one reading, older ones stay. -/
def moveUp (start count id : Nat) : Nat := if start ≤ id then id + count else id

variable {start count id j k : Nat} {t : Table SymbolId} {r r' : Registry} {d : Declaration}

theorem moveUp_of_le (h : start ≤ id) : moveUp start count id = id + count := if_pos h

theorem moveUp_of_lt (h : id < start) : moveUp start count id = id := if_neg (Nat.not_le.mpr h)

theorem moveUp_lt {id' : Nat} (h : id < id') : moveUp start count id < moveUp start count id' := by
  unfold moveUp
  split <;> split <;> omega

/-- In a table that gets later numbers under the same names, the numbers have moved up. -/
theorem get?_movedUp (ht : ∀ key id, t.get? key = some id → id < start) (count : Nat)
    (ds : List Declaration) (name : Declaration → String) {key : String} {id : SymbolId}
    (h : (t.update ⟨ds.map fun d => (name d, d.id + start)⟩).get? key = some id) :
    ((t.update ⟨ds.map fun d => (name d, d.id + start)⟩).update ⟨ds.map fun d =>
      (name d, d.id + (start + count))⟩).get? key = some (moveUp start count id) := by
  have hmoved : (ds.map fun d => (name d, d.id + (start + count))).reverse =
      (ds.map fun d => (name d, d.id + start)).reverse.map fun e => (e.1, e.2 + count) := by
    rw [← List.map_reverse, ← List.map_reverse, List.map_map]
    simp [Function.comp_def, Nat.add_assoc]
  rw [Table.get?_update_update, Table.get?_update, hmoved, Table.lookIn_map (· + count)]
  rw [Table.get?_update] at h
  cases hlook : Table.lookIn key (ds.map fun d => (name d, d.id + start)).reverse with
  | some v =>
    rw [hlook] at h
    cases h
    obtain ⟨d, -, heq⟩ := List.mem_map.mp (List.mem_reverse.mp (Table.mem_of_lookIn hlook))
    cases heq
    rw [moveUp_of_le (Nat.le_add_left _ _)]
    rfl
  | none =>
    rw [hlook, Option.none_or] at h
    rw [moveUp_of_lt (ht key id h)]
    exact h

theorem Symbol.ext_bare {i i' : Symbol} (h : i'.bare = i.bare) (hmethods : i'.methods = t) :
    i' = { i with methods := t } := by
  subst hmethods
  exact congrArg (fun s : Symbol => { s with methods := i'.methods }) h

/-- Two readings give every declaration the same symbol, but for the numbers of its methods. -/
def SameSymbols (tree : ParseTree) (j k : Nat) (r r' : Registry) : Prop :=
  ∀ d ∈ declared tree, (r.get? (d.id + j)).map Symbol.bare = (r'.get? (d.id + k)).map Symbol.bare

theorem SameSymbols.fullName (h : SameSymbols tree j k r r') (hd : d ∈ declared tree) :
    r.fullName (d.id + j) = r'.fullName (d.id + k) := by
  have hsame := congrArg (Option.map Symbol.fullName) (h d hd)
  rw [Option.map_map, Option.map_map] at hsame
  exact congrArg (Option.getD · "") hsame

theorem SameSymbols.shortName (h : SameSymbols tree j k r r') (hd : d ∈ declared tree) :
    r.shortName (d.id + j) = r'.shortName (d.id + k) := by
  have hsame := congrArg (Option.map Symbol.shortName) (h d hd)
  rw [Option.map_map, Option.map_map] at hsame
  exact congrArg (Option.getD · "") hsame

section Twice

variable (hheads : HeadsFirst tree)
  (h : (visit file source none tree).run c = .ok ((), c'))
  (h' : (visit file source none tree).run c' = .ok ((), c''))
  (hsame : SameSymbols tree c.registry.size c'.registry.size c'.registry c''.registry)
include hheads h h' hsame

/-- The methods of a declaration are those of the reading before, one reading later. -/
theorem methods_again (i : Nat) :
    c''.registry.methods (i + c'.registry.size) =
      (c'.registry.methods (i + c.registry.size)).shift (declared tree).length := by
  rw [methods_of_reading hheads h i, methods_of_reading hheads h' i, Table.shift_update,
    List.map_map]
  refine congrArg (fun es => Table.update ∅ ⟨es⟩) (List.map_congr_left fun e he => ?_)
  rw [← hsame.fullName (List.mem_of_mem_filter he), size_of_visit h]
  exact congrArg (Prod.mk _) (Nat.add_assoc ..).symm

variable (hreached : Reached registry file source c)
include hreached

/-- A symbol of the last reading but one is found again in the last one, and older symbols are left
as they are. -/
theorem get?_again {n : Nat} (hle : registry.size ≤ n) (hlt : n < c'.registry.size) :
    ∃ i, c'.registry.get? n = some i ∧
      c''.registry.get? (moveUp c.registry.size (declared tree).length n) =
        some (i.move (moveUp c.registry.size (declared tree).length)) := by
  obtain ⟨i, hi⟩ := Registry.exists_get? hlt
  refine ⟨i, hi, ?_⟩
  have hsize := size_of_visit h
  rcases Nat.lt_or_ge n c.registry.size with hold | hnew
  · -- The methods of an old symbol are old.
    have hc : c.registry.get? n = some i := ((pass_of_visit hheads h).old hold hold).symm.trans hi
    have hmove : i.move (moveUp c.registry.size (declared tree).length) = i.move id := by
      refine Symbol.move_congr fun m hm => ?_
      rw [← Registry.methods_of_get? hc] at hm
      exact moveUp_of_lt (hreached.methods_later hle hm).2
    rw [moveUp_of_lt hold, hmove, Symbol.move_id]
    exact ((pass_of_visit hheads h').old hlt hlt).trans hi
  · -- A symbol of the last reading belongs to a declaration, and so do its methods.
    obtain ⟨d, hd, hid⟩ := (declared_ordered tree).exists_of_id (i := n - c.registry.size)
      (Nat.zero_le _)
      (show _ < 0 + (declared tree).length by omega)
    obtain rfl : n = d.id + c.registry.size := by rw [hid, Nat.sub_add_cancel hnew]
    have hmethods := methods_again hheads h h' hsame d.id
    have hbare := hsame d hd
    rw [hi] at hbare
    obtain ⟨i', hi', hbare'⟩ := Option.map_eq_some_iff.mp hbare.symm
    rw [Registry.methods_of_get? hi, Registry.methods_of_get? hi'] at hmethods
    have hlater : ∀ m ∈ i.methods.values, moveUp c.registry.size (declared tree).length m = m +
        (declared tree).length := by
      intro m hm
      rw [← Registry.methods_of_get? hi] at hm
      have hm' := ((hreached.visit h).methods_later hle hm).1
      exact moveUp_of_le (Nat.le_of_lt (Nat.lt_of_le_of_lt hnew hm'))
    rw [moveUp_of_le hnew, Symbol.move_eq_shift hlater, Nat.add_assoc, ← hsize, hi']
    exact congrArg some (Symbol.ext_bare hbare' hmethods)

theorem record_again {n : Nat} (hle : registry.size ≤ n) (hlt : n < c'.registry.size) :
    c'.registry.record (c'.registry.size + 1) n =
      c''.registry.record (c''.registry.size + 1)
        (moveUp c.registry.size (declared tree).length n) := by
  refine record_move (P := fun n => registry.size ≤ n ∧ n < c'.registry.size)
    (fun n hn => ?_) ⟨hle, hlt⟩
    (by omega) (by omega)
  obtain ⟨i, hi, hi'⟩ := get?_again hheads h h' hsame hreached hn.1 hn.2
  refine ⟨i, hi, hi', fun m hm => ?_⟩
  rw [← Registry.methods_of_get? hi] at hm
  obtain ⟨hm₁, hm₂⟩ := (hreached.visit h).methods_later hn.1 hm
  exact ⟨⟨Nat.le_trans hn.1 (Nat.le_of_lt hm₁), hm₂⟩, hm₁, moveUp_lt hm₁⟩

/-- A table that the declarations `ds` are put into has the same names and the same records after
the last reading as before it. -/
theorem table_again {t t' t'' : Table SymbolId} {ds : List Declaration} (hds : ds ⊆ declared tree)
    (hnodup : t.keys.Nodup)
    (ht : ∀ name n, t.get? name = some n → registry.size ≤ n ∧ n < c.registry.size)
    (ht' : t' = t.update ⟨ds.map fun d => (c'.registry.fullName (d.id + c.registry.size),
      d.id + c.registry.size)⟩)
    (ht'' : t'' = t'.update ⟨ds.map fun d =>
      (c''.registry.fullName (d.id + c'.registry.size), d.id + c'.registry.size)⟩) :
    t''.keys = t'.keys ∧ c''.registry.records t'' = c'.registry.records t' := by
  have hsize := size_of_visit h
  have hlast : t'' = t'.update ⟨ds.map fun d => (c'.registry.fullName (d.id + c.registry.size),
      d.id + (c.registry.size + (declared tree).length))⟩ := by
    rw [ht'']
    refine congrArg (fun es => t'.update ⟨es⟩) (List.map_congr_left fun d hd => ?_)
    rw [← hsame.fullName (hds hd), hsize]
  have hkeys : t''.keys = t'.keys := by
    rw [hlast]
    refine Table.keys_update_of_contains fun name hname => ?_
    rw [List.map_map] at hname
    rw [ht', Table.contains_update, List.map_map]
    exact .inl hname
  have hnodup' : t'.keys.Nodup := by
    rw [ht']
    exact Table.nodup_keys_update _ hnodup
  refine ⟨hkeys, Registry.records_congr (φ := moveUp c.registry.size (declared tree).length)
    hnodup' hkeys
    fun name n hn => ⟨?_, ?_⟩⟩
  · rw [hlast, ht']
    rw [ht'] at hn
    exact get?_movedUp (fun key m hm => (ht key m hm).2) _ _ _ hn
  · have hrange : registry.size ≤ n ∧ n < c'.registry.size := by
      rw [ht'] at hn
      rcases Table.get?_update_cases hn with hmem | hold
      · obtain ⟨d, hd, heq⟩ := List.mem_map.mp hmem
        cases heq
        refine ⟨Nat.le_trans hreached.size_le (Nat.le_add_left _ _), ?_⟩
        rw [hsize, Nat.add_comm]
        exact Nat.add_lt_add_left (id_lt_declared (hds hd)) _
      · exact ⟨(ht name n hold).1, by rw [hsize]; exact Nat.lt_add_right _ (ht name n hold).2⟩
    exact record_again hheads h h' hsame hreached hrange.1 hrange.2

/-- **A reading that makes the same symbols again leaves what is known as it was.** -/
theorem same_again (hpackage : packageAfter c.package tree = c.package) : c'.Same c'' := by
  have hclasses := table_again hheads h h' hsame hreached
    (List.filter_subset_self _) hreached.nodup.1
    (fun _ _ hn => hreached.mem_range (.inl hn)) (classes_of_reading hheads h)
      (classes_of_reading hheads h')
  have hsymbols := table_again hheads h h' hsame hreached (List.Subset.refl _) hreached.nodup.2.1
    (fun _ _ hn => hreached.mem_range (.inr hn)) (symbols_of_reading hheads h)
      (symbols_of_reading hheads h')
  refine ⟨?_, ?_, hclasses.1, hclasses.2, hsymbols.1, hsymbols.2⟩
  · rw [package_of_visit hheads h', package_of_visit hheads h, hpackage, hpackage]
  · have hown : ownBindings tree c'.registry.size c''.registry =
        ownBindings tree c.registry.size c'.registry := by
      refine List.map_congr_left fun d hd => ?_
      rw [hsame.fullName hd, hsame.shortName hd]
    rw [full_of_visit hheads h', hown, full_of_visit hheads h]
    exact Table.update_self hreached.nodup.2.2 _

end Twice

end Repeated

/-! ## Plain files -/

/-- The simple name of a class or interface. -/
def Declaration.typeName (d : Declaration) : String :=
  ((d.node.first? .identifier).map ParseTree.text).getD ""

/-- The number of a declaration in a reading; the readings are numbered from zero. -/
def numberIn (registry : Registry) (tree : ParseTree) (reading : Nat) (d : Declaration) :
    SymbolId :=
  d.id + (registry.size + reading * (declared tree).length)

theorem numberIn_zero (registry : Registry) (tree : ParseTree) (d : Declaration) :
    numberIn registry tree 0 d = d.id + registry.size := by
  rw [numberIn, Nat.zero_mul, Nat.add_zero]

variable {registry : Registry} {file source : String} {tree : ParseTree} {c₁ : Collected}

theorem numberIn_one (h₁ : (visit file source none tree).run { registry } = .ok ((), c₁))
    (d : Declaration) :
    numberIn registry tree 1 d = d.id + c₁.registry.size := by
  rw [numberIn, Nat.one_mul, size_of_visit h₁]

/-- A declaration has its number of the first reading after that reading. -/
theorem lt_size_of_visit (h₁ : (visit file source none tree).run { registry } = .ok ((), c₁))
    {d : Declaration} (hd : d ∈ declared tree) : d.id + registry.size < c₁.registry.size := by
  rw [size_of_visit h₁, Nat.add_comm]
  exact Nat.add_lt_add_left (id_lt_declared hd) _

/-- A file in which types can be told by their simple names. No two classes or interfaces have the
same simple name, and none has one that an import or `java.lang` brings; none is declared in a
method; and no piece of a type that a method states is what a method was stored under, in either
reading. -/
structure Plain (registry : Registry) (tree : ParseTree) (c : Collected) : Prop where
  apart : ((declared tree).filter fun d => d.kind ≠ .method).Pairwise fun d e =>
    d.typeName ≠ e.typeName
  notImported : ∀ d ∈ declared tree, d.kind ≠ .method → ∀ name ∈ importNames tree,
    d.typeName ≠ Text.afterLast name '.'
  notPredefined : ∀ d ∈ declared tree, d.kind ≠ .method → javaLang.contains d.typeName = false
  outside : ∀ d ∈ declared tree, d.kind ≠ .method → ∀ e ∈ declared tree, d.scope = some e.id →
    e.kind ≠ .method
  pieces : ∀ d ∈ declared tree, d.kind = .method → ∀ e ∈ declared tree, e.kind = .method →
    ∀ reading < 2,
    c.registry.shortName (numberIn registry tree reading e) ∉ typePieces d.node

/-- A piece of a type that some method states. -/
def Mentioned (tree : ParseTree) (w : String) : Prop := ∃ d ∈ declared tree, d.kind = .method ∧
    w ∈ typePieces d.node

/-- Pieces of types stand for the same in two tables. -/
def Agree (tree : ParseTree) (full full' : Table String) : Prop :=
  ∀ w, Mentioned tree w → full.get? w = full'.get? w

section Plain

variable {registry : Registry} {file source : String} {tree : ParseTree} {c c' c'' : Collected}

theorem key_of_headBindings {w : String} (h : w ∈ (headBindings tree).map (·.1)) :
    javaLang.contains w = true ∨ ∃ name ∈ importNames tree, w = Text.afterLast name '.' := by
  obtain ⟨e, he, rfl⟩ := List.mem_map.mp h
  obtain ⟨item, hitem, hbound⟩ := List.mem_flatMap.mp he
  obtain ⟨hmem, hhead⟩ := List.mem_filter.mp hitem
  cases item with
  | package t => exact .inl (Table.contains_iff_mem_keys.mpr (List.mem_map_of_mem hbound))
  | «import» t =>
    refine .inr ⟨Collect.importedName t, ?_, ?_⟩
    · rw [← imports_outline tree none 0]
      exact List.mem_filterMap.mpr ⟨_, hmem, rfl⟩
    · rw [List.mem_singleton.mp hbound]
  | declaration d => cases hhead

/-- A class or interface is known by its simple name. -/
theorem shortName_type (hheads : HeadsFirst tree)
    (h : (visit file source none tree).run c = .ok ((), c'))
    {d : Declaration} (hd : d ∈ declared tree) (hkind : d.kind ≠ .method) :
    c'.registry.shortName (d.id + c.registry.size) = d.typeName := by
  obtain ⟨full, o, -, ho, hs⟩ := (Collect.symbols_of_visit (Q := fun _ => True) hheads h trivial
    fun _ _ _ _ _ _ _ _ => trivial).2 d hd
  obtain ⟨n, last, hn, -, hbare⟩ := (Declaration.symbol_type_eq_ok hkind).mp hs
  have hshort := congrArg Symbol.shortName hbare
  rw [Registry.shortName_of_get? ho, Declaration.typeName, hn]
  exact hshort

/-- What a reading whose types are the ones of the first reading gives its declarations, if pieces
of types stand for what they stood for after that. -/
structure SettledReading (registry : Registry) (file source : String) (tree : ParseTree)
    (full : Table String) (c c' : Collected) :
    Prop where
  reached : Reached registry file source c
  read : (visit file source none tree).run c = .ok ((), c')
  package : c.package = packageAfter "" tree
  agree : Agree tree c'.full full
  symbols : ∀ d ∈ declared tree, ∃ o, c'.registry.get? (d.id + c.registry.size) = some o ∧
    d.symbol file source full (packageAfter "" tree)
      (d.scope.map fun o => c'.registry.fullName (o + c.registry.size)) =
      .ok o.bare

section Collection

variable {c₁ : Collected}

theorem not_mentioned_first (hheads : HeadsFirst tree)
    (h₁ : (visit file source none tree).run { registry } = .ok ((), c₁))
    (h₂ : (visit file source none tree).run c₁ = .ok ((), c)) (hplain : Plain registry tree c) :
    ∀ d ∈ declared tree, d.kind = .method →
    ¬ Mentioned tree (c₁.registry.shortName (d.id + registry.size)) := by
  rintro d hd hkind ⟨e, he, hmethod, hpiece⟩
  have hnever := hplain.pieces e he hmethod d hd hkind 0 (by decide)
  rw [numberIn_zero, ((pass_of_visit hheads h₂).names_kept (lt_size_of_visit h₁ hd)).2] at hnever
  exact hnever hpiece

theorem not_mentioned_second (h₁ : (visit file source none tree).run { registry } = .ok ((), c₁))
    (hplain : Plain registry tree c) :
    ∀ d ∈ declared tree, d.kind = .method →
    ¬ Mentioned tree (c.registry.shortName (d.id + c₁.registry.size)) := by
  rintro d hd hkind ⟨e, he, hmethod, hpiece⟩
  have hnever := hplain.pieces e he hmethod d hd hkind 1 (by decide)
  rw [numberIn_one h₁] at hnever
  exact hnever hpiece

variable (hheads : HeadsFirst tree)
  (h₁ : (visit file source none tree).run { registry } = .ok ((), c₁))
  (hplain : Plain registry tree c)
include hheads h₁ hplain

/-- In every reading a class has the full name that it had first. -/
theorem fullName_type {e e' : Collected} (he : (visit file source none tree).run e = .ok ((), e'))
    (hpackage : e.package = packageAfter "" tree) {d : Declaration} (hd : d ∈ declared tree)
    (hkind : d.kind ≠ .method) :
    e'.registry.fullName (d.id + e.registry.size) =
      c₁.registry.fullName (d.id + registry.size) := by
  have hnamed := Collect.named_of_visit hheads he
  rw [hpackage, packageAfter_packageAfter] at hnamed
  refine fullName_twin hnamed (Collect.named_of_visit hheads h₁) (S := fun d => d.kind ≠ .method)
    hplain.outside
    (fun d hd hkind => ?_) d hd hkind
  rw [shortName_type hheads he hd hkind]
  exact (shortName_type hheads h₁ hd hkind).symm

variable (hfirst : ∀ d ∈ declared tree, d.kind = .method →
  ¬ Mentioned tree (c₁.registry.shortName (d.id + registry.size)))
include hfirst

/-- After the first reading the name of a class that a method mentions stands for the class. -/
theorem get?_typeName {d : Declaration} (hd : d ∈ declared tree) (hkind : d.kind ≠ .method)
    (hw : Mentioned tree d.typeName) :
    c₁.full.get? d.typeName = some (c₁.registry.fullName (d.id + registry.size)) := by
  have hshort := shortName_type hheads h₁ hd hkind
  obtain ⟨pre, post, hsplit⟩ := List.append_of_mem hd
  have hown : ownBindings tree registry.size c₁.registry =
      (pre.map fun e => (c₁.registry.shortName (e.id + registry.size),
        c₁.registry.fullName (e.id + registry.size))) ++
      (d.typeName, c₁.registry.fullName (d.id + registry.size)) ::
        post.map fun e => (c₁.registry.shortName (e.id + registry.size),
          c₁.registry.fullName (e.id + registry.size)) := by
    rw [ownBindings, hsplit, List.map_append, List.map_cons, ← hshort]
  rw [full_of_visit hheads h₁, hown, ← List.append_assoc]
  refine Table.get?_update_of_last fun hmem => ?_
  rw [List.map_map] at hmem
  obtain ⟨e, he, hkey⟩ := List.mem_map.mp hmem
  have hin : e ∈ declared tree := hsplit ▸ List.mem_append_right _ (List.mem_cons_of_mem _ he)
  by_cases hmethod : e.kind = .method
  · refine hfirst e hin hmethod ?_
    rw [show c₁.registry.shortName (e.id + registry.size) = d.typeName from hkey]
    exact hw
  · -- Another class or interface has another name.
    have hapart := hplain.apart
    rw [hsplit, List.filter_append, List.filter_cons_of_pos (by simpa using hkind)] at hapart
    have hne := (List.pairwise_cons.mp (List.pairwise_append.mp hapart).2.1).1 e
      (List.mem_filter.mpr ⟨he, by simpa using hmethod⟩)
    exact hne (hkey.symm.trans (shortName_type hheads h₁ hin hmethod))

/-- After the first reading a piece of a type that the heads bind stands for what they bound it
to. -/
theorem get?_headBinding {w : String} (hw : Mentioned tree w)
    (hhead : w ∈ (headBindings tree).map (·.1)) :
    c₁.full.get? w = Table.lookIn w (headBindings tree).reverse := by
  have hfree : w ∉ (ownBindings tree registry.size c₁.registry).map (·.1) := by
    intro hmem
    rw [ownBindings, List.map_map] at hmem
    obtain ⟨d, hd, hkey⟩ := List.mem_map.mp hmem
    by_cases hkind : d.kind = .method
    · refine hfirst d hd hkind ?_
      rw [show c₁.registry.shortName (d.id + registry.size) = w from hkey]
      exact hw
    · have hname : d.typeName = w := (shortName_type hheads h₁ hd hkind).symm.trans hkey
      rcases key_of_headBindings hhead with hlang | ⟨name, hname', hlast⟩
      · rw [← hname, hplain.notPredefined d hd hkind] at hlang
        cases hlang
      · exact hplain.notImported d hd hkind name hname' (hname.trans hlast)
  rw [full_of_visit hheads h₁, Table.update_append, Table.get?_update_of_not_mem hfree,
    Table.get?_update]
  exact Option.or_none

theorem agree_enter {e : Collected} (h : Agree tree e.full c₁.full) :
    Agree tree (e.enter tree).full c₁.full := by
  intro w hw
  show (e.full.update ⟨headBindings tree⟩).get? w = _
  by_cases hhead : w ∈ (headBindings tree).map (·.1)
  · have hbound := get?_headBinding hheads h₁ hplain hfirst hw hhead
    rw [Table.get?_update, ← hbound, h w hw, Option.or_self]
  · rw [Table.get?_update_of_not_mem hhead]
    exact h w hw

/-- One reading more: its methods are known by what pieces of types stood for after the first
reading. -/
theorem settled_of_visit {e e' : Collected} (hreached : Reached registry file source e)
    (he : (visit file source none tree).run e = .ok ((), e'))
    (hpackage : e.package = packageAfter "" tree) (hagree : Agree tree e.full c₁.full)
    (hkeys : ∀ d ∈ declared tree, d.kind = .method →
      signatureOf c₁.full d.node = .ok (e'.registry.shortName (d.id + e.registry.size)) →
      ¬ Mentioned tree (e'.registry.shortName (d.id + e.registry.size))) :
    SettledReading registry file source tree c₁.full e e' := by
  have hpieces {d : Declaration} (hd : d ∈ declared tree) {full : Table String}
      (hfull : Agree tree full c₁.full) :
      d.kind = .method → ∀ w ∈ typePieces d.node, full.get? w = c₁.full.get? w :=
    fun hkind w hw => hfull w ⟨d, hd, hkind, hw⟩
  have hafter : packageAfter e.package tree = packageAfter "" tree := by
    rw [hpackage, packageAfter_packageAfter]
  obtain ⟨hend, hall⟩ := Collect.symbols_of_visit
    (Q := fun full => Agree tree full c₁.full) hheads he
    (agree_enter hheads h₁ hplain hfirst hagree) (fun d hd full s hfull hs hshort hname w hw => by
      -- A declaration binds its own name only, and that to what it stood for after the first
      -- reading.
      rw [Table.get?_put]
      split
      · next heq =>
        by_cases hkind : d.kind = .method
        · have hsigned :=
            Declaration.signature_symbol (Declaration.symbol_congr hs (hpieces hd hfull)) hkind
          rw [← hshort] at hsigned heq
          exact absurd (heq ▸ hw) (hkeys d hd hkind hsigned)
        · have htype : s.shortName = d.typeName :=
            hshort.symm.trans (shortName_type hheads he hd hkind)
          rw [heq, htype] at hw ⊢
          rw [get?_typeName hheads h₁ hplain hfirst hd hkind hw, ← hname,
            fullName_type hheads h₁ hplain he hpackage hd hkind]
      · exact hfull w hw)
  refine ⟨hreached, he, hpackage, hend, fun d hd => ?_⟩
  obtain ⟨full, o, hfull, ho, hs⟩ := hall d hd
  rw [hafter] at hs
  exact ⟨o, ho, Declaration.symbol_congr hs (hpieces hd hfull)⟩

end Collection

namespace SettledReading

variable {full : Table String}

/-- Two settled readings give every declaration the same symbol. -/
theorem sameSymbols (hheads : HeadsFirst tree)
    (h : SettledReading registry file source tree full c c')
    (h' : SettledReading registry file source tree full c' c'') :
    SameSymbols tree c.registry.size c'.registry.size c'.registry c''.registry := by
  have hnamed := Collect.named_of_visit hheads h.read
  have hnamed' := Collect.named_of_visit hheads h'.read
  rw [h.package, packageAfter_packageAfter] at hnamed
  rw [h'.package, packageAfter_packageAfter] at hnamed'
  have hnames := fullName_twin hnamed hnamed' (S := fun _ => True) (fun _ _ _ _ _ _ => trivial)
      fun d hd _ => by
    obtain ⟨o, ho, hs⟩ := h.symbols d hd
    obtain ⟨o', ho', hs'⟩ := h'.symbols d hd
    have hshort := Declaration.shortName_symbol hs hs'
    rw [Registry.shortName_of_get? ho, Registry.shortName_of_get? ho']
    exact hshort
  intro d hd
  obtain ⟨o, ho, hs⟩ := h.symbols d hd
  obtain ⟨o', ho', hs'⟩ := h'.symbols d hd
  -- What is around the declaration has the same name in both readings, and so the symbols are made
  -- of the same.
  have houter : (d.scope.map fun o => c'.registry.fullName (o + c.registry.size)) =
      d.scope.map fun o => c''.registry.fullName (o + c'.registry.size) := by
    cases hscope : d.scope with
    | none => rfl
    | some o =>
      obtain ⟨e, he, rfl, -⟩ := exists_declared_scope hd hscope
      exact congrArg some (hnames e he trivial)
  rw [houter, hs'] at hs
  rw [ho, ho', Option.map_some, Option.map_some, Except.ok.inj hs]

/-- A further reading is settled as well, and leaves what is known as it was. -/
theorem next (hheads : HeadsFirst tree) {c₁ : Collected}
    (h₁ : (visit file source none tree).run { registry } = .ok ((), c₁))
    {plain : Collected} (hplain : Plain registry tree plain)
    (hfirst : ∀ d ∈ declared tree, d.kind = .method →
      ¬ Mentioned tree (c₁.registry.shortName (d.id + registry.size)))
    (hkeys : ∀ d ∈ declared tree, d.kind = .method → ∀ key, signatureOf c₁.full d.node = .ok key →
      ¬ Mentioned tree key)
    (h : SettledReading registry file source tree c₁.full c c') :
    ∃ c'', SettledReading registry file source tree c₁.full c' c'' ∧ c'.Same c'' := by
  obtain ⟨c'', hread⟩ := Collect.visit_again h.read c'
  have hpackage : c'.package = packageAfter "" tree := by
    rw [package_of_visit hheads h.read, h.package, packageAfter_packageAfter]
  have h' := settled_of_visit hheads h₁ hplain hfirst (h.reached.visit h.read) hread
    hpackage h.agree
    fun d hd hkind => hkeys d hd hkind _
  have hstays : packageAfter c.package tree = c.package := by
    rw [h.package, packageAfter_packageAfter]
  exact ⟨c'', h', same_again hheads h.read hread (h.sameSymbols hheads h') h.reached hstays⟩

/-- However often a file is read again, what is known stays as it is. -/
theorem repeated (hheads : HeadsFirst tree) {c₁ : Collected}
    (h₁ : (visit file source none tree).run { registry } = .ok ((), c₁)) {plain : Collected}
    (hplain : Plain registry tree plain)
    (hfirst : ∀ d ∈ declared tree, d.kind = .method →
      ¬ Mentioned tree (c₁.registry.shortName (d.id + registry.size)))
    (hkeys : ∀ d ∈ declared tree, d.kind = .method → ∀ key, signatureOf c₁.full d.node = .ok key →
      ¬ Mentioned tree key)
    (h : SettledReading registry file source tree c₁.full c c') (n : Nat) :
    ∃ c'', ((List.replicate n tree).forM (visit file source none)).run c' = .ok ((), c'') ∧
    c'.Same c'' := by
  induction n generalizing c c' with
  | zero => exact ⟨c', rfl, .refl c'⟩
  | succ n ih =>
    obtain ⟨c'', h', hsame⟩ := h.next hheads h₁ hplain hfirst hkeys
    obtain ⟨e, hread, hsame'⟩ := ih h'
    exact ⟨e, Collect.bind_eq_ok.mpr ⟨(), c'', h'.read, hread⟩, hsame.trans hsame'⟩

/-- A method of a settled reading has the signature and the return type that the names give in the
end. -/
theorem described (h : SettledReading registry file source tree full c c') {d : Declaration}
    (hd : d ∈ declared tree)
    (hkind : d.kind = .method) : ∃ s type, c'.registry.get? (d.id + c.registry.size) = some s ∧
      signatureOf c'.full d.node = .ok s.shortName ∧ d.node.first? .typeTypeOrVoid = some type ∧
      s.returnType = resolve c'.full type.text := by
  obtain ⟨s, hs, hsymbol⟩ := h.symbols d hd
  have hend : d.symbol file source c'.full _ _ = .ok s.bare :=
    Declaration.symbol_congr hsymbol fun _ w hw => (h.agree w ⟨d, hd, hkind, hw⟩).symm
  have hsigned := Declaration.signature_symbol hend hkind
  obtain ⟨parts, params, last, type, -, -, -, htype, -, hbare⟩ :=
    (Declaration.symbol_method_eq_ok hkind).mp hend
  have hreturn := congrArg Symbol.returnType hbare
  exact ⟨s, type, hs, hsigned, htype, hreturn⟩

end SettledReading

theorem headsFirst_of_parsed (htree : HeadsFirst tree ∨ ∃ text, tree = (Java.parse text).tree) :
    HeadsFirst tree := by
  rcases htree with hheads | ⟨text, rfl⟩
  · exact hheads
  · exact (parse_regular text).headsFirst

/-- A collection is two readings. -/
theorem collect_visits (h : collect registry file source tree = .ok c) :
    ∃ c₁, (visit file source none tree).run { registry } = .ok ((), c₁) ∧
      (visit file source none tree).run c₁ = .ok ((), c) := by
  unfold collect at h
  obtain ⟨⟨⟨⟩, c₂⟩, hread, hc⟩ := Steps.except_bind_eq_ok.mp h
  cases hc
  obtain ⟨⟨⟩, c₁, h₁, h₂⟩ := Collect.bind_eq_ok.mp hread
  exact ⟨c₁, h₁, h₂⟩

theorem reached_of_collect (h : collect registry file source tree = .ok c) :
    Reached registry file source c := by
  obtain ⟨c₁, h₁, h₂⟩ := collect_visits h
  exact ((Reached.begin registry file source).visit h₁).visit h₂

/-- The classes that are known after the second reading are those that it has made, and their
methods as well. -/
theorem method_of_class {c₁ : Collected} (hheads : HeadsFirst tree)
    (h₁ : (visit file source none tree).run { registry } = .ok ((), c₁))
    (h₂ : (visit file source none tree).run c₁ = .ok ((), c))
    (htype : ∀ d ∈ declared tree, d.kind ≠ .method →
      c.registry.fullName (d.id + c₁.registry.size) = c₁.registry.fullName (d.id + registry.size))
    {name key : String} {id m : SymbolId} (hid : c.classes.get? name = some id)
    (hm : (c.registry.methods id).get? key = some m) :
    ∃ d ∈ declared tree, d.kind = .method ∧ m = d.id + c₁.registry.size := by
  -- A class of the first reading has been replaced by the one of the second, which has the same
  -- name.
  obtain ⟨e, rfl⟩ : ∃ e : Declaration, id = e.id + c₁.registry.size := by
    rw [classes_of_reading hheads h₂, Table.get?_update, Option.or_eq_some_iff] at hid
    rcases hid with hnew | ⟨hnone, hold⟩
    · obtain ⟨e, -, heq⟩ := List.mem_map.mp (List.mem_reverse.mp (Table.mem_of_lookIn hnew))
      cases heq
      exact ⟨e, rfl⟩
    · rw [Table.lookIn_eq_none_iff, List.map_reverse, List.mem_reverse, List.map_map] at hnone
      rw [classes_of_reading hheads h₁] at hold
      rcases Table.get?_update_cases hold with hmem | hempty
      · obtain ⟨e, he, heq⟩ := List.mem_map.mp hmem
        cases heq
        obtain ⟨hin, hkind⟩ := List.mem_filter.mp he
        exact absurd (List.mem_map.mpr ⟨e, he, htype e hin (of_decide_eq_true hkind)⟩) hnone
      · cases hempty
  rw [methods_of_reading hheads h₂] at hm
  rcases Table.get?_update_cases hm with hmem | hempty
  · obtain ⟨d, hd, heq⟩ := List.mem_map.mp hmem
    cases heq
    obtain ⟨hin, hmethod⟩ := List.mem_filter.mp hd
    exact ⟨d, hin, (of_decide_eq_true hmethod).1, rfl⟩
  · cases hempty

/-- **Two readings are enough.** Let a file be plain. After its collection every method that is
registered in a class has the signature and the return type that the names give in the end, and a
name in these types that a class of the file has stands for that class, wherever it is declared.
However often the file is read again, each reading comes to its end and leaves the names, the
classes and the symbols as they are: the same names in the same order, with the same records. -/
theorem reading_settles {registry : Registry} {file source : String} {tree : ParseTree}
    {c : Collected} (htree : HeadsFirst tree ∨ ∃ text, tree = (Java.parse text).tree)
    (h : collect registry file source tree = .ok c) (hplain : Plain registry tree c) :
    (∀ name id, c.classes.get? name = some id → ∀ key m, (c.registry.methods id).get? key = some m →
      ∃ d ∈ declared tree, ∃ s type, d.kind = .method ∧ m = numberIn registry tree 1 d ∧
        c.registry.get? m = some s ∧
        signatureOf c.full d.node = .ok s.shortName ∧ d.node.first? .typeTypeOrVoid = some type ∧
        s.returnType = resolve c.full type.text) ∧
    (∀ d ∈ declared tree, d.kind ≠ .method → Mentioned tree d.typeName →
      c.full.get? d.typeName = some (c.registry.fullName (numberIn registry tree 1 d))) ∧
    ∀ n, ∃ c', ((List.replicate n tree).forM (visit file source none)).run c = .ok ((), c') ∧
    c.Same c' := by
  have hheads := headsFirst_of_parsed htree
  obtain ⟨c₁, h₁, h₂⟩ := collect_visits h
  have hfirst := not_mentioned_first hheads h₁ h₂ hplain
  have hsecond := not_mentioned_second h₁ hplain
  have hpackage : c₁.package = packageAfter "" tree := package_of_visit hheads h₁
  have hsettled := settled_of_visit hheads h₁ hplain hfirst
    ((Reached.begin registry file source).visit h₁) h₂ hpackage
    (fun _ _ => rfl) fun d hd hkind _ => hsecond d hd hkind
  have hnumber (d : Declaration) : numberIn registry tree 1 d = d.id + c₁.registry.size :=
    numberIn_one h₁ d
  have htype {d : Declaration} (hd : d ∈ declared tree) (hkind : d.kind ≠ .method) :=
    fullName_type hheads h₁ hplain h₂ hpackage hd hkind
  have hkeys : ∀ d ∈ declared tree, d.kind = .method → ∀ key, signatureOf c₁.full d.node = .ok key →
      ¬ Mentioned tree key := by
    intro d hd hkind key hkey
    obtain ⟨o, ho, hs⟩ := hsettled.symbols d hd
    have hsigned := Declaration.signature_symbol hs hkind
    have hmentioned := hsecond d hd hkind
    rw [Registry.shortName_of_get? ho] at hmentioned
    rwa [Except.ok.inj (hkey.symm.trans hsigned)]
  refine ⟨fun name id hid key m hm => ?_, fun d hd hkind hw => ?_,
    hsettled.repeated hheads h₁ hplain hfirst hkeys⟩
  · obtain ⟨d, hd, hkind, rfl⟩ :=
      method_of_class hheads h₁ h₂ (fun d hd hkind => htype hd hkind) hid hm
    obtain ⟨s, type, hs, hsigned, htypeText, hreturn⟩ := hsettled.described hd hkind
    exact ⟨d, hd, s, type, hkind, (hnumber d).symm, hs, hsigned, htypeText, hreturn⟩
  · rw [hsettled.agree _ hw, hnumber, htype hd hkind]
    exact get?_typeName hheads h₁ hplain hfirst hd hkind hw

end Plain

open Profiler (branch named classNamed)

/-- A parameter of a type. -/
def parameterOf (type : String) : ParseTree :=
  branch .formalParameter [branch .typeType [named type], branch .variableDeclaratorId [named "x"]]

/-- A class with a method that names a class further down. -/
def forwardReference : ParseTree :=
  branch .compilationUnit [classNamed (named "A")
    [branch .methodDeclaration [branch .typeTypeOrVoid [named "B"], named "m",
      branch .formalParameters [branch .formalParameterList [parameterOf "B"]]],
    classNamed (named "B") []]]

/-- What is known after the file is collected. -/
def forwardCollected : Collected :=
  ((collect .empty "A.java" "" forwardReference).toOption).getD { registry := .empty }

/-- The method is known by the full name of the class further down, the first time by its simple
name. Three more readings leave it so. -/
theorem forwardReference_settles :
    Plain .empty forwardReference forwardCollected ∧
    forwardCollected.symbols.keys = ["A", "A.m(B)", "A.B", "A.m(A.B)"] ∧
    (∃ d ∈ declared forwardReference, ∃ s type, d.kind = .method ∧
      4 = numberIn .empty forwardReference 1 d ∧
      forwardCollected.registry.get? 4 = some s ∧ signatureOf forwardCollected.full d.node =
        .ok s.shortName ∧
      d.node.first? .typeTypeOrVoid = some type ∧
      s.returnType = resolve forwardCollected.full type.text) ∧
    ∃ c', ((List.replicate 3 forwardReference).forM (visit "A.java" "" none)).run forwardCollected =
      .ok ((), c') ∧
      forwardCollected.Same c' := by
  have hplain : Plain .empty forwardReference forwardCollected :=
    ⟨by decide +kernel, by decide +kernel, by decide +kernel, by decide +kernel, by decide +kernel⟩
  have hcollected : collect .empty "A.java" "" forwardReference = .ok forwardCollected := by
    have hok : (collect .empty "A.java" "" forwardReference).toBool = true := by decide +kernel
    obtain ⟨c, hc⟩ := Steps.exists_of_toBool hok
    rw [forwardCollected, hc]
    rfl
  obtain ⟨hmethods, -, hrepeated⟩ := reading_settles (.inl (by decide)) hcollected hplain
  have hclass : forwardCollected.classes.get? "A" = some 3 := by decide +kernel
  have hmethod : (forwardCollected.registry.methods 3).get? "A.m(A.B)" = some 4 := by decide +kernel
  exact ⟨hplain, by decide +kernel, hmethods "A" 3 hclass "A.m(A.B)" 4 hmethod, hrepeated 3⟩

end Coupling.Project
