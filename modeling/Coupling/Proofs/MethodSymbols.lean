import Coupling.Proofs.TwoReadings

/-!
# Methods and their symbols

The table of symbols that a collection leaves is filled in both readings of a file, and a symbol
goes by its full name. So a method can be lost, when a declaration after it takes its name, and one
can be left over, when the name that it had in the first reading is given to nothing in the second.
A variadic parameter is no part of a name, and a class that is declared further down has no full
name yet in the first reading: both happen in files that are fine otherwise
(`methods_lost_and_invented`).

If neither happens, the methods in the table are those that the second reading has made, one for
each declaration, and each stands among the methods of the symbol around it (`methods_stand_iff`).
-/

namespace Coupling.Project

open Java (ParseTree)

/-! ## Names that last -/

section Names

variable (registry : Registry) (tree : ParseTree) (c : Collected)

/-- The full name that a declaration is given in a reading. -/
def givenName (reading : Nat) (d : Declaration) : String :=
  c.registry.fullName (numberIn registry tree reading d)

/-- No later declaration of the reading takes the name. -/
def LastNamed (reading : Nat) (d : Declaration) : Prop :=
  ∀ e ∈ declared tree, d.id < e.id → givenName registry tree c reading e ≠
  givenName registry tree c reading d

instance (reading : Nat) (d : Declaration) : Decidable (LastNamed registry tree c reading d) :=
  inferInstanceAs (Decidable (∀ e ∈ declared tree, _))

/-- What the table of symbols has of the methods: those that the second reading made, each under its
name, and each among the methods of the symbol that the table has for what it is declared in. -/
structure MethodsStand : Prop where
  noneInvented : ∀ name id s, c.symbols.get? name = some id → c.registry.get? id = some s →
    s.kind = .method →
    ∃ d ∈ declared tree, d.kind = .method ∧ id = numberIn registry tree 1 d ∧
    name = givenName registry tree c 1 d
  noneLost : ∀ d ∈ declared tree, d.kind = .method →
    c.symbols.get? (givenName registry tree c 1 d) = some (numberIn registry tree 1 d)
  enclosed : ∀ d ∈ declared tree, d.kind = .method → ∃ e ∈ declared tree, d.scope = some e.id ∧
    c.symbols.get? (givenName registry tree c 1 e) = some (numberIn registry tree 1 e) ∧
    (c.registry.methods (numberIn registry tree 1 e)).get? (givenName registry tree c 1 d) =
      some (numberIn registry tree 1 d)

end Names

/-- Under the name of a declaration stands the declaration itself just if no later one takes the
name. -/
theorem get?_name_iff {t : Table SymbolId} {ds : List Declaration}
    (hsorted : ds.Pairwise fun d e => d.id < e.id)
    (name : Declaration → String) (k : Nat) {d : Declaration} (hd : d ∈ ds) :
    (t.update ⟨ds.map fun d => (name d, d.id + k)⟩).get? (name d) = some (d.id + k) ↔
      ∀ e ∈ ds, d.id < e.id → name e ≠ name d := by
  obtain ⟨pre, post, rfl⟩ := List.append_of_mem hd
  obtain ⟨-, hrest, hbefore⟩ := List.pairwise_append.mp hsorted
  obtain ⟨hafter, hpost⟩ := List.pairwise_cons.mp hrest
  rw [List.map_append, List.map_cons]
  constructor
  · intro hget e he hlt hname
    have hin : e ∈ post := by
      rcases List.mem_append.mp he with hpre | hmem
      · exact absurd (hbefore e hpre d List.mem_cons_self) (Nat.lt_asymm hlt)
      · rcases List.mem_cons.mp hmem with rfl | hmem
        · exact absurd hlt (Nat.lt_irrefl _)
        · exact hmem
    -- Then one of the later declarations stands under the name.
    have hkey : name d ∈ (post.map fun d => (name d, d.id + k)).map (·.1) := by
      rw [List.map_map]
      exact List.mem_map.mpr ⟨e, hin, hname⟩
    obtain ⟨n, hn, hlast⟩ := Table.get?_update_of_mem
      (t.update ⟨(pre.map fun d => (name d, d.id + k)) ++ [(name d, d.id + k)]⟩) hkey
    rw [← Table.update_append, List.append_assoc, List.singleton_append, hget] at hlast
    obtain ⟨f, hf, heq⟩ := List.mem_map.mp hn
    have hid : f.id + k = d.id + k := (Prod.mk.inj heq).2.trans (Option.some_inj.mp hlast).symm
    exact absurd (Nat.add_right_cancel hid) (Nat.ne_of_gt (hafter f hf))
  · intro hlasts
    refine Table.get?_update_of_last fun hmem => ?_
    rw [List.map_map] at hmem
    obtain ⟨e, he, hname⟩ := List.mem_map.mp hmem
    exact hlasts e (List.mem_append_right _ (List.mem_cons_of_mem _ he)) (hafter e he) hname

/-! ## The symbols of a collection -/

section Collected

variable {registry : Registry} {file source : String} {tree : ParseTree} {c : Collected}

/-- What a reading puts into a table, of some declarations. -/
def entriesIn (registry : Registry) (tree : ParseTree) (c : Collected) (reading : Nat)
    (ds : List Declaration) :
    List (String × SymbolId) :=
  ds.map fun d => (givenName registry tree c reading d, numberIn registry tree reading d)

theorem declarations_readings (registry : Registry) (tree : ParseTree) :
    declarations (firstOutline registry tree ++ secondOutline registry tree) =
      (declared tree).map (Declaration.later (registry.size + 0 * (declared tree).length)) ++
        (declared tree).map (Declaration.later (registry.size + 1 * (declared tree).length)) := by
  rw [declarations_append, secondOutline, firstOutline, declarations_outline, declarations_outline,
    List.length_map, Nat.zero_mul, Nat.one_mul, Nat.add_zero]

variable {d : Declaration}

theorem mem_readings_of_declared (hd : d ∈ declared tree) (reading : Nat) (hreading : reading < 2) :
    d.later (registry.size + reading * (declared tree).length) ∈
      declarations (firstOutline registry tree ++ secondOutline registry tree) := by
  rw [declarations_readings]
  have hcases : reading = 0 ∨ reading = 1 := by omega
  rcases hcases with rfl | rfl
  · exact List.mem_append_left _ (List.mem_map_of_mem hd)
  · exact List.mem_append_right _ (List.mem_map_of_mem hd)

variable (h : collect registry file source tree = .ok c)
include h

theorem symbols_collected :
    c.symbols = (Table.update ∅ ⟨entriesIn registry tree c 0 (declared tree)⟩).update
    ⟨entriesIn registry tree c 1 (declared tree)⟩ := by
  rw [(collect_pass h).symbols_eq, declarations_readings, List.map_append, List.map_map,
    List.map_map, Table.update_append]
  rfl

section

variable (hd : d ∈ declared tree)
include hd

/-- The symbol that a reading gave a declaration is of its kind. -/
theorem kind_collected (reading : Nat) (hreading : reading < 2) :
    ∃ s, c.registry.get? (numberIn registry tree reading d) = some s ∧ s.kind = d.kind := by
  obtain ⟨-, s, hs, hof, -⟩ :=
    (collect_pass h).described (mem_readings_of_declared hd reading hreading)
  exact ⟨s, hs, hof.kind⟩

theorem scope_collected (hkind : d.kind = .method) : ∃ o, d.scope = some o := by
  obtain ⟨o, ho⟩ := (collect_pass h).exists_scope (mem_readings_of_declared hd 0 (by decide)) hkind
  exact (Option.map_eq_some_iff.mp ho).imp fun _ hscope => hscope.1

/-- A declaration stands in the table under its last name just if no later declaration takes it. -/
theorem get?_symbols_iff :
    c.symbols.get? (givenName registry tree c 1 d) = some (numberIn registry tree 1 d) ↔
      LastNamed registry tree c 1 d := by
  rw [symbols_collected h]
  exact get?_name_iff (declared_ordered tree).pairwise _ _ hd

/-- A method whose name lasts stands among the methods of what it is declared in. -/
theorem get?_methods_of_lastNamed {e : Declaration} (hkind : d.kind = .method)
    (hscope : d.scope = some e.id) (hlast : LastNamed registry tree c 1 d) :
    (c.registry.methods (numberIn registry tree 1 e)).get? (givenName registry tree c 1 d) =
      some (numberIn registry tree 1 d) := by
  let k := registry.size + 1 * (declared tree).length
  obtain ⟨pre, post, hsplit⟩ := List.append_of_mem hd
  have hin : (d.later k).kind = .method ∧ (d.later k).scope =
      some (numberIn registry tree 1 e) := by
    refine ⟨hkind, ?_⟩
    unfold Declaration.later
    rw [hscope]
    rfl
  have hall : declarations (firstOutline registry tree ++ secondOutline registry tree) =
      ((declared tree).map (Declaration.later (registry.size + 0 * (declared tree).length)) ++
        pre.map (Declaration.later k)) ++ d.later k :: post.map (Declaration.later k) := by
    have hsecond : (declared tree).map (Declaration.later k) =
        pre.map (Declaration.later k) ++ d.later k :: post.map (Declaration.later k) := by
      rw [← List.map_cons, ← List.map_append, ← hsplit]
    rw [declarations_readings, hsecond, List.append_assoc]
  rw [(collect_pass h).methods_eq, hall, List.filter_append,
    List.filter_cons_of_pos (by simpa using hin), List.map_append, List.map_cons]
  refine Table.get?_update_of_last fun hmem => ?_
  rw [List.map_map] at hmem
  obtain ⟨f', hf', hname⟩ := List.mem_map.mp hmem
  obtain ⟨f, hf, rfl⟩ := List.mem_map.mp (List.mem_of_mem_filter hf')
  have hsorted := (declared_ordered tree).pairwise
  change (declared tree).Pairwise _ at hsorted
  rw [hsplit] at hsorted
  have hlt := (List.pairwise_cons.mp (List.pairwise_append.mp hsorted).2.1).1 f hf
  exact hlast f (hsplit ▸ List.mem_append_right _ (List.mem_cons_of_mem _ hf)) hlt hname

end

/-- No method is left over just if each name that a method had last in the first reading is given in
the second. -/
theorem noneInvented_iff :
    (∀ name id s, c.symbols.get? name = some id → c.registry.get? id = some s → s.kind = .method →
      ∃ d ∈ declared tree, d.kind = .method ∧ id = numberIn registry tree 1 d ∧
      name = givenName registry tree c 1 d) ↔
    ∀ d ∈ declared tree, d.kind = .method → LastNamed registry tree c 0 d →
      ∃ e ∈ declared tree, givenName registry tree c 1 e = givenName registry tree c 0 d := by
  have hfirst {d : Declaration} (hd : d ∈ declared tree) :
      (Table.update ∅ ⟨entriesIn registry tree c 0 (declared tree)⟩).get?
        (givenName registry tree c 0 d) =
        some (numberIn registry tree 0 d) ↔ LastNamed registry tree c 0 d :=
    get?_name_iff (declared_ordered tree).pairwise _ _ hd
  constructor
  · intro hexact d hd hkind hlast
    by_contra hnone
    obtain ⟨s, hs, hkind'⟩ := kind_collected h hd 0 (by decide)
    have hget : c.symbols.get? (givenName registry tree c 0 d) =
        some (numberIn registry tree 0 d) := by
      rw [symbols_collected h, Table.get?_update_of_not_mem, (hfirst hd).mpr hlast]
      intro hmem
      rw [entriesIn, List.map_map] at hmem
      obtain ⟨e, he, hname⟩ := List.mem_map.mp hmem
      exact hnone ⟨e, he, hname⟩
    -- A number of the first reading is none of the second.
    obtain ⟨e, -, -, hid, -⟩ := hexact _ _ s hget hs (hkind'.trans hkind)
    have hnumber : d.id + (registry.size + 0 * (declared tree).length) =
      e.id + (registry.size + 1 * (declared tree).length) := hid
    have hge : (declared tree).length ≤ d.id := by
      rw [Nat.zero_mul, Nat.one_mul, Nat.add_zero, Nat.add_comm registry.size, ← Nat.add_assoc]
        at hnumber
      rw [Nat.add_right_cancel hnumber]
      exact Nat.le_add_left _ _
    exact Nat.not_lt.mpr hge (id_lt_declared hd)
  · intro hgiven name id s hget hs hkind
    rw [symbols_collected h, Table.get?_update, Option.or_eq_some_iff] at hget
    rcases hget with hnew | ⟨hnone, hold⟩
    · obtain ⟨d, hd, heq⟩ := List.mem_map.mp (List.mem_reverse.mp (Table.mem_of_lookIn hnew))
      cases heq
      obtain ⟨s', hs', hkind'⟩ := kind_collected h hd 1 (by decide)
      rw [hs] at hs'
      cases hs'
      exact ⟨d, hd, hkind'.symm.trans hkind, rfl, rfl⟩
    · rw [Table.lookIn_eq_none_iff, List.map_reverse, List.mem_reverse, entriesIn, List.map_map]
        at hnone
      rcases Table.get?_update_cases hold with hmem | hempty
      · obtain ⟨d, hd, heq⟩ := List.mem_map.mp hmem
        cases heq
        obtain ⟨s', hs', hkind'⟩ := kind_collected h hd 0 (by decide)
        rw [hs] at hs'
        cases hs'
        obtain ⟨e, he, hname⟩ := hgiven d hd (hkind'.symm.trans hkind) ((hfirst hd).mp hold)
        exact absurd (List.mem_map.mpr ⟨e, he, hname⟩) hnone
      · cases hempty

/-- Declarations that go by the same simple names in both readings have the same full names. -/
theorem fullName_same (htree : HeadsFirst tree ∨ ∃ text, tree = (Java.parse text).tree)
    (hshort : ∀ d ∈ declared tree, c.registry.shortName (numberIn registry tree 0 d) =
      c.registry.shortName (numberIn registry tree 1 d)) :
    ∀ d ∈ declared tree, givenName registry tree c 0 d = givenName registry tree c 1 d := by
  have hheads := headsFirst_of_parsed htree
  obtain ⟨c₁, h₁, h₂⟩ := collect_visits h
  have hnamed := Collect.named_of_visit hheads h₂
  rw [package_of_visit hheads h₁, packageAfter_packageAfter] at hnamed
  intro d hd
  have htwin := fullName_twin (Collect.named_of_visit hheads h₁) hnamed (S := fun _ => True)
    (fun _ _ _ _ _ _ => trivial) (fun e he _ => by
      have hsame := hshort e he
      rw [numberIn_zero, numberIn_one h₁,
        ((pass_of_visit hheads h₂).names_kept (lt_size_of_visit h₁ he)).2] at hsame
      exact hsame) d hd trivial
  rw [givenName, givenName, numberIn_zero, numberIn_one h₁,
    ((pass_of_visit hheads h₂).names_kept (lt_size_of_visit h₁ hd)).1]
  exact htwin

/-- **When no method is lost and none invented.** After every collection, the methods in the table
of symbols are those that the second reading made, one for each method declaration and among the
methods of the symbol around it, just if three things hold: no later declaration takes the name of a
method; each name that a method had last in the first reading is given to something in the second;
and no later declaration takes the name of what a method is declared in. The second of these can
only fail where a declaration goes by another simple name in the first reading than in the second:
if there is none such, all full names are the same in both. -/
theorem methods_stand_iff :
    (MethodsStand registry tree c ↔
      (∀ d ∈ declared tree, d.kind = .method → LastNamed registry tree c 1 d) ∧
      (∀ d ∈ declared tree, d.kind = .method → LastNamed registry tree c 0 d →
        ∃ e ∈ declared tree, givenName registry tree c 1 e = givenName registry tree c 0 d) ∧
      (∀ d ∈ declared tree, d.kind = .method → ∀ e ∈ declared tree, d.scope = some e.id →
        LastNamed registry tree c 1 e)) ∧
    ((HeadsFirst tree ∨ ∃ text, tree = (Java.parse text).tree) →
      (∀ d ∈ declared tree, c.registry.shortName (numberIn registry tree 0 d) =
        c.registry.shortName (numberIn registry tree 1 d)) →
      ∀ d ∈ declared tree, givenName registry tree c 0 d = givenName registry tree c 1 d) := by
  refine ⟨⟨fun hstand => ⟨fun d hd hkind => ?_, (noneInvented_iff h).mp hstand.noneInvented,
    fun d hd hkind e he ho => ?_⟩, fun ⟨hlast, hgiven, howner⟩ =>
    ⟨(noneInvented_iff h).mpr hgiven, fun d hd hkind => ?_, fun d hd hkind => ?_⟩⟩,
      fun htree hshort d hd => ?_⟩
  · exact (get?_symbols_iff h hd).mp (hstand.noneLost d hd hkind)
  · obtain ⟨e', he', ho', hget, -⟩ := hstand.enclosed d hd hkind
    have hid : e.id = e'.id := Option.some_inj.mp (ho.symm.trans ho')
    obtain rfl := (declared_ordered tree).eq_of_id he he' hid
    exact (get?_symbols_iff h he).mp hget
  · exact (get?_symbols_iff h hd).mpr (hlast d hd hkind)
  · obtain ⟨o, ho⟩ := scope_collected h hd hkind
    obtain ⟨e, he, rfl, -⟩ := exists_declared_scope hd ho
    exact ⟨e, he, ho, (get?_symbols_iff h he).mpr (howner d hd hkind e he ho),
      get?_methods_of_lastNamed h hd hkind ho (hlast d hd hkind)⟩
  · exact fullName_same h htree hshort d hd

end Collected

open Profiler (branch named classNamed methodTaking methodNamed)

/-- What is known after a tree is collected as the only one. -/
def collectedAlone (tree : ParseTree) : Collected :=
  ((collect .empty "A.java" "" tree).toOption).getD { registry := .empty }

/-- A class with a method that declares another one, and with a second method. -/
def methodInMethod : ParseTree :=
  branch .compilationUnit [classNamed (named "A")
    [methodTaking [branch .formalParameterList [parameterOf "A"]] "f" [methodNamed "g" []],
      methodNamed "h" []]]

/-- All three methods stand in the table. -/
theorem methodInMethod_stands :
    MethodsStand .empty methodInMethod (collectedAlone methodInMethod) ∧
    (collectedAlone methodInMethod).symbols.keys = ["A", "A.f(A)", "A.f(A).g", "A.h"] := by
  have hok : (collect .empty "A.java" "" methodInMethod).toBool = true := by decide +kernel
  obtain ⟨c, hc⟩ := Steps.exists_of_toBool hok
  have hcollected : collect .empty "A.java" "" methodInMethod =
      .ok (collectedAlone methodInMethod) := by
    rw [collectedAlone, hc]
    rfl
  refine ⟨(methods_stand_iff hcollected).1.mpr ⟨?_, ?_, ?_⟩, ?_⟩ <;> decide +kernel

/-- The names of the methods in a table of symbols. -/
def methodNames (c : Collected) : List String :=
  c.symbols.keys.filter fun name => ((c.symbols.get? name).bind c.registry.get?).any fun s =>
  s.kind = .method

/-- A class with two methods that differ in a variadic parameter. -/
def variadicOverload : ParseTree :=
  branch .compilationUnit [classNamed (named "A")
    [methodTaking [branch .formalParameterList [parameterOf "int"]] "f" [],
      methodTaking [branch .formalParameterList [parameterOf "int", branch .lastFormalParameter
        [branch .typeType [named "int"], branch .variableDeclaratorId [named "y"]]]] "f" []]]

/-- Of two methods that differ in a variadic parameter one is lost, and a method that names a class
further down stands in the table twice. -/
theorem methods_lost_and_invented :
    ((declared variadicOverload).filter fun d => d.kind = .method).length = 2 ∧
    methodNames (collectedAlone variadicOverload) = ["A.f(int)"] ∧
    ((declared forwardReference).filter fun d => d.kind = .method).length = 1 ∧
    methodNames (collectedAlone forwardReference) = ["A.m(B)", "A.m(A.B)"] := by
  decide +kernel

end Coupling.Project
