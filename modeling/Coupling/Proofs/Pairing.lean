import Coupling.Proofs.Renumbering

/-!
# The same reading among other symbols

A profiler that shares its registry with others finds its symbols under other numbers than if it
were alone. A pairing of two registries takes each symbol of the one to its place in the other,
where symbols of others may stand in between (`Pairing`). What adds symbols to both registries, or
changes a symbol and the one paired with it, leads to a pairing that goes on from it
(`Pairing.Extends`).

A reading of a file does the same in both (`visit_paired`): it ends with the same fault or with
none, and what it leads to is paired again. The rows of the matrix have to be numbered alike for
this, but only if there are classes.
-/

namespace Coupling.Project

open Java (ParseTree)

/-! ## Pairings -/

/-- The symbols of a registry and their places in another one, in the same order. Methods are
younger than what they belong to. -/
structure Pairing (r r' : Registry) where
  place : Nat → Nat
  symbol : ∀ id i, r.get? id = some i → r'.get? (place id) = some (i.move place)
  mono : ∀ id id', id < id' → id' < r.size → place id < place id'
  methods : ∀ id i, r.get? id = some i → ∀ m ∈ i.methods.values, id < m ∧ m < r.size

namespace Pairing

variable {r r' r₁ r₁' r₂ r₂' : Registry}

theorem place_lt (p : Pairing r r') {id : Nat} (h : id < r.size) : p.place id < r'.size := by
  obtain ⟨i, hi⟩ := Registry.exists_get? h
  exact Registry.lt_size_of_get? (p.symbol id i hi)

theorem place_inj (p : Pairing r r') {id id' : Nat} (h : id < r.size) (h' : id' < r.size)
    (heq : p.place id = p.place id') : id = id' := by
  rcases Nat.lt_trichotomy id id' with hlt | hsame | hlt
  · exact absurd heq (Nat.ne_of_lt (p.mono id id' hlt h'))
  · exact hsame
  · exact absurd heq.symm (Nat.ne_of_lt (p.mono id' id hlt h))

theorem relabels (p : Pairing r r') : Relabels p.place (· < r.size) r r' := by
  intro id hid
  obtain ⟨i, hi⟩ := Registry.exists_get? hid
  refine ⟨i, hi, p.symbol id i hi, fun m hm => ?_⟩
  obtain ⟨hyounger, hlt⟩ := p.methods id i hi m hm
  exact ⟨hlt, hyounger, p.mono id m hyounger hlt⟩

/-- What stands under its name does so where it is placed. -/
theorem named (p : Pairing r r') {t : Table SymbolId} (h : Named t r) :
    Named (t.map p.place) r' := by
  intro name id hid
  rw [Table.get?_map] at hid
  obtain ⟨id₀, hid₀, rfl⟩ := Option.map_eq_some_iff.mp hid
  obtain ⟨i, hi, hname⟩ := h name id₀ hid₀
  exact ⟨_, p.symbol id₀ i hi, hname⟩

/-- The empty registry is paired with any other. -/
def ofEmpty (r' : Registry) : Pairing .empty r' where
  place id := id
  symbol _ _ h := by cases h
  mono _ _ _ h := by cases h
  methods _ _ h := by cases h

/-- Others may have done something, as long as the paired symbols are as they were. -/
def among (p : Pairing r r') (h : ∀ id < r.size, r₁'.get? (p.place id) = r'.get? (p.place id)) :
    Pairing r r₁' where
  place := p.place
  symbol id i hi := (h id (Registry.lt_size_of_get? hi)).trans (p.symbol id i hi)
  mono := p.mono
  methods := p.methods

/-- One pairing goes on from another: symbols keep their places, and new ones come after all that
were there. -/
structure Extends (p : Pairing r r') (q : Pairing r₁ r₁') : Prop where
  size_le : r.size ≤ r₁.size
  size_le' : r'.size ≤ r₁'.size
  agree : ∀ id < r.size, q.place id = p.place id
  fresh : ∀ id, r.size ≤ id → id < r₁.size → r'.size ≤ q.place id

namespace Extends

theorem refl (p : Pairing r r') : p.Extends p where
  size_le := Nat.le_refl _
  size_le' := Nat.le_refl _
  agree _ _ := rfl
  fresh _ hle hlt := absurd hlt (Nat.not_lt.mpr hle)

theorem trans {p : Pairing r r'} {q : Pairing r₁ r₁'} {u : Pairing r₂ r₂'} (h : p.Extends q)
    (h' : q.Extends u) :
    p.Extends u where
  size_le := Nat.le_trans h.size_le h'.size_le
  size_le' := Nat.le_trans h.size_le' h'.size_le'
  agree id hid := (h'.agree id (Nat.lt_of_lt_of_le hid h.size_le)).trans (h.agree id hid)
  fresh id hle hlt := by
    rcases Nat.lt_or_ge id r₁.size with hold | hnew
    · rw [h'.agree id hold]
      exact h.fresh id hle hold
    · exact Nat.le_trans h.size_le' (h'.fresh id hnew hlt)

/-- A table of old symbols means the same to both. -/
theorem map_eq {p : Pairing r r'} {q : Pairing r₁ r₁'} (h : p.Extends q) {t : Table SymbolId}
    (ht : ∀ id ∈ t.values, id < r.size) : t.map q.place = t.map p.place :=
  Table.map_congr fun id hid => h.agree id (ht id hid)

end Extends

/-- A symbol and the one it is paired with are changed alike. -/
def change (p : Pairing r r') {id : Nat} (hid : id < r.size) {f : Symbol → Symbol}
    (hmove : ∀ i φ, f (i.move φ) = (f i).move φ) (hmethods : ∀ i, (f i).methods = i.methods) :
    Pairing (r.change id f) (r'.change (p.place id) f) where
  place := p.place
  symbol id' i hi := by
    rw [Registry.get?_change] at hi ⊢
    by_cases heq : id = id'
    · subst heq
      rw [if_pos rfl] at hi ⊢
      obtain ⟨i₀, hi₀, rfl⟩ := Option.map_eq_some_iff.mp hi
      rw [p.symbol id i₀ hi₀, Option.map_some, hmove]
    · rw [if_neg heq] at hi
      rw [if_neg fun hplace => heq (p.place_inj hid (Registry.lt_size_of_get? hi) hplace)]
      exact p.symbol id' i hi
  mono id₁ id₂ hlt h₂ := p.mono id₁ id₂ hlt (Registry.size_change r id f ▸ h₂)
  methods id' i hi m hm := by
    rw [Registry.size_change]
    rw [Registry.get?_change] at hi
    split at hi
    · obtain ⟨i₀, hi₀, rfl⟩ := Option.map_eq_some_iff.mp hi
      exact p.methods id' i₀ hi₀ m (hmethods i₀ ▸ hm)
    · exact p.methods id' i hi m hm

theorem extends_change (p : Pairing r r') {id : Nat} (hid : id < r.size) {f : Symbol → Symbol}
    (hmove : ∀ i φ, f (i.move φ) = (f i).move φ) (hmethods : ∀ i, (f i).methods = i.methods) :
    p.Extends (p.change hid hmove hmethods) where
  size_le := Nat.le_of_eq (Registry.size_change r id f).symm
  size_le' := Nat.le_of_eq (Registry.size_change r' _ f).symm
  agree _ _ := rfl
  fresh _ hle hlt := absurd (Registry.size_change r id f ▸ hlt) (Nat.not_lt.mpr hle)

end Pairing

/-! ## New symbols -/

/-- Two registries have gone on with the same symbols. -/
structure Prolonged (r r₁ r' r₁' : Registry) : Prop where
  size_le : r.size ≤ r₁.size
  size_le' : r'.size ≤ r₁'.size
  old : ∀ id < r.size, r₁.get? id = r.get? id
  old' : ∀ id < r'.size, r₁'.get? id = r'.get? id
  new : ∀ j i, r₁.get? (j + r.size) = some i →
    r₁'.get? (j + r'.size) = some (i.move fun m => m - r.size + r'.size)
  methods : ∀ j i, r₁.get? (j + r.size) = some i → ∀ m ∈ i.methods.values, j + r.size < m ∧
    m < r₁.size

theorem get?_add_tail {r : Registry} {i k : Symbol} {j : Nat}
    (h : (r.add i).get? (j + r.size) = some k) :
    j = 0 ∧ k = i := by
  rw [Registry.get?_add] at h
  split at h
  · next heq =>
    cases h
    exact ⟨Nat.add_eq_right.mp heq, rfl⟩
  · rw [Registry.get?_eq_none (Nat.le_add_left _ _)] at h
    cases h

/-- An import is added to both. -/
theorem prolonged_add (r r' : Registry) {i : Symbol} (hi : Analyze.IsImport i) :
    Prolonged r (r.add i) r' (r'.add i) where
  size_le := by rw [Registry.size_add]; exact Nat.le_succ _
  size_le' := by rw [Registry.size_add]; exact Nat.le_succ _
  old _ := Registry.get?_add_of_lt i
  old' _ := Registry.get?_add_of_lt i
  new j k hk := by
    obtain ⟨rfl, rfl⟩ := get?_add_tail hk
    rw [Nat.zero_add, Registry.get?_add_self]
    refine congrArg some ((Symbol.move_congr fun m hm => ?_).trans k.move_id).symm
    rw [hi.methods] at hm
    cases hm
  methods j k hk m hm := by
    obtain ⟨-, rfl⟩ := get?_add_tail hk
    rw [hi.methods] at hm
    cases hm

/-- A collection is added to both. -/
theorem prolonged_onto (r r' : Registry) {base : Registry}
    (hbase : ∀ id i, base.get? id = some i → ∀ m ∈ i.methods.values, id < m ∧ m < base.size) :
    Prolonged r (r.onto base) r' (r'.onto base) where
  size_le := by rw [Registry.size_onto]; exact Nat.le_add_right _ _
  size_le' := by rw [Registry.size_onto]; exact Nat.le_add_right _ _
  old _ := Registry.get?_onto_of_lt base
  old' _ := Registry.get?_onto_of_lt base
  new j i hi := by
    rw [Registry.get?_onto] at hi ⊢
    obtain ⟨i₀, hi₀, rfl⟩ := Option.map_eq_some_iff.mp hi
    rw [hi₀, Symbol.move_shift fun m _ => by rw [Nat.add_sub_cancel]]
    rfl
  methods j i hi m hm := by
    rw [Registry.get?_onto] at hi
    obtain ⟨i₀, hi₀, rfl⟩ := Option.map_eq_some_iff.mp hi
    obtain ⟨m₀, hm₀, rfl⟩ : ∃ m₀ ∈ i₀.methods.values, m₀ + r.size = m := by
      have hshift : m ∈ (i₀.methods.shift r.size).values := hm
      rwa [Table.values_shift, List.mem_map] at hshift
    obtain ⟨hyounger, hlt⟩ := hbase j i₀ hi₀ m₀ hm₀
    rw [Registry.size_onto]
    exact ⟨Nat.add_lt_add_right hyounger _, Nat.add_comm base.size _ ▸ Nat.add_lt_add_right hlt _⟩

namespace Pairing

variable {r r' r₁ r₁' : Registry} (p : Pairing r r')

/-- Old symbols stay where they are placed, new ones are placed from where the other registry
ended. -/
def onward (id : Nat) : Nat := if id < r.size then p.place id else id - r.size + r'.size

theorem onward_of_lt {id : Nat} (h : id < r.size) : p.onward id = p.place id := if_pos h

theorem onward_of_le {id : Nat} (h : r.size ≤ id) : p.onward id = id - r.size + r'.size :=
  if_neg (Nat.not_lt.mpr h)

theorem onward_add (j : Nat) : p.onward (j + r.size) = j + r'.size := by
  rw [p.onward_of_le (Nat.le_add_left _ _), Nat.add_sub_cancel]

/-- The pairing goes on as the registries do. -/
def prolong (h : Prolonged r r₁ r' r₁') : Pairing r₁ r₁' where
  place := p.onward
  symbol id i hi := by
    rcases Nat.lt_or_ge id r.size with hlt | hge
    · have hi₀ : r.get? id = some i := (h.old id hlt).symm.trans hi
      have hsame : i.move p.onward = i.move p.place :=
        Symbol.move_congr fun m hm => p.onward_of_lt (p.methods id i hi₀ m hm).2
      rw [p.onward_of_lt hlt, h.old' _ (p.place_lt hlt), hsame]
      exact p.symbol id i hi₀
    · obtain ⟨j, rfl⟩ : ∃ j, id = j + r.size := ⟨id - r.size, (Nat.sub_add_cancel hge).symm⟩
      rw [p.onward_add, h.new j i hi]
      refine congrArg some (Symbol.move_congr fun m hm => (p.onward_of_le ?_).symm)
      exact Nat.le_trans hge (Nat.le_of_lt (h.methods j i hi m hm).1)
  mono id id' hlt _ := by
    rcases Nat.lt_or_ge id r.size with hid | hid
    · rcases Nat.lt_or_ge id' r.size with hid' | hid'
      · rw [p.onward_of_lt hid, p.onward_of_lt hid']
        exact p.mono id id' hlt hid'
      · rw [p.onward_of_lt hid, p.onward_of_le hid']
        exact Nat.lt_of_lt_of_le (p.place_lt hid) (Nat.le_add_left _ _)
    · rw [p.onward_of_le hid, p.onward_of_le (Nat.le_trans hid (Nat.le_of_lt hlt))]
      omega
  methods id i hi m hm := by
    rcases Nat.lt_or_ge id r.size with hlt | hge
    · obtain ⟨hyounger, hold⟩ := p.methods id i ((h.old id hlt).symm.trans hi) m hm
      exact ⟨hyounger, Nat.lt_of_lt_of_le hold h.size_le⟩
    · obtain ⟨j, rfl⟩ : ∃ j, id = j + r.size := ⟨id - r.size, (Nat.sub_add_cancel hge).symm⟩
      exact h.methods j i hi m hm

theorem extends_prolong (h : Prolonged r r₁ r' r₁') : p.Extends (p.prolong h) where
  size_le := h.size_le
  size_le' := h.size_le'
  agree _ := p.onward_of_lt
  fresh id hle _ := by
    show r'.size ≤ p.onward id
    rw [p.onward_of_le hle]
    exact Nat.le_add_left _ _

end Pairing

/-! ## Readings of a file -/

/-- The same reading, where classes have other numbers and the matrix may have other rows. -/
def Setting.among (c : Setting) (classes : ClassTable) (numbering : Numbering) : Setting :=
  { c with classes, numbering }

namespace Analyze

/-- Two states of a reading that are paired: the tables hold paired symbols, and the matrix is the
same. -/
structure Paired (classes classes' : ClassTable) (a a' : Analysis)
    (p : Pairing a.registry a'.registry) : Prop where
  mem_classes : ∀ id ∈ classes.values, id < a.registry.size
  mem_symbols : ∀ id ∈ a.symbols.values, id < a.registry.size
  classes : classes' = classes.map p.place
  symbols : a'.symbols = a.symbols.map p.place
  matrix : a'.matrix = a.matrix

namespace Paired

variable {classes classes' : ClassTable} {a a' : Analysis} {p : Pairing a.registry a'.registry}
  (h : Paired classes classes' a a' p)
include h

theorem find_eq (k : Handle) :
    k.find classes' a'.symbols = (k.find classes a.symbols).map p.place := by
  cases k with
  | ofClass name => rw [h.classes]; exact Table.get?_map _ _ _
  | ofSymbol name => rw [h.symbols]; exact Table.get?_map _ _ _

theorem lt_of_find {k : Handle} {id : SymbolId} (hid : k.find classes a.symbols = some id) :
    id < a.registry.size := by
  cases k with
  | ofClass name => exact h.mem_classes id (Table.mem_values_of_get? hid)
  | ofSymbol name => exact h.mem_symbols id (Table.mem_values_of_get? hid)

/-- A symbol that is found is changed on both sides. -/
theorem change {k : Handle} {id : SymbolId} (hid : k.find classes a.symbols = some id)
    {f : Symbol → Symbol}
    (hmove : ∀ i φ, f (i.move φ) = (f i).move φ) (hmethods : ∀ i, (f i).methods = i.methods) :
    ∃ q, p.Extends q ∧ Paired classes classes' { a with registry := a.registry.change id f }
      { a' with registry := a'.registry.change (p.place id) f } q := by
  have hlt := h.lt_of_find hid
  refine ⟨p.change hlt hmove hmethods, p.extends_change hlt hmove hmethods, ?_, ?_, h.classes,
    h.symbols, h.matrix⟩
  · intro id' hid'
    rw [Registry.size_change]
    exact h.mem_classes id' hid'
  · intro id' hid'
    rw [Registry.size_change]
    exact h.mem_symbols id' hid'

/-- An import becomes a symbol on both sides. -/
theorem withSymbol {i : Symbol} (hi : IsImport i) :
    ∃ q, p.Extends q ∧ Paired classes classes' (Analyze.withSymbol i a)
      (Analyze.withSymbol i a') q := by
  have hadd := prolonged_add a.registry a'.registry hi
  have hext := p.extends_prolong hadd
  refine ⟨p.prolong hadd, hext, fun id hid => ?_, fun id hid => ?_, ?_, ?_, h.matrix⟩
  · exact Nat.lt_of_lt_of_le (h.mem_classes id hid) hext.size_le
  · obtain ⟨e, he, rfl⟩ := List.mem_map.mp hid
    rcases Table.mem_putInto he with rfl | hold
    · exact (Registry.size_add a.registry i).symm ▸ Nat.lt_succ_self _
    · exact Nat.lt_of_lt_of_le (h.mem_symbols e.2 (List.mem_map_of_mem hold)) hext.size_le
  · exact h.classes.trans (hext.map_eq h.mem_classes).symm
  · show a'.symbols.put i.fullName a'.registry.size =
      (a.symbols.put i.fullName a.registry.size).map p.onward
    have hnew : p.onward a.registry.size = a'.registry.size := by
      rw [← Nat.zero_add a.registry.size, p.onward_add, Nat.zero_add]
    rw [Table.map_put, hnew, h.symbols]
    exact congrArg (Table.put · _ _) (hext.map_eq h.mem_symbols).symm

end Paired

/-- What comes of a request on both sides: it is refused with the same fault, or granted. -/
inductive Likewise {r r' : Registry} (p : Pairing r r') (classes classes' : ClassTable) :
    Except Fault Analysis → Except Fault Analysis → Prop
  | refused (fault : Fault) : Likewise p classes classes' (.error fault) (.error fault)
  | granted {a a' : Analysis} {q : Pairing a.registry a'.registry} (hext : p.Extends q)
    (h : Paired classes classes' a a' q) : Likewise p classes classes' (.ok a) (.ok a')

theorem isImport_of_symbolAt {file source short name : String} {info : Java.NodeInfo} {i : Symbol}
    (h : (symbolAt file source .import short name info : Except Fault Symbol) = .ok i) :
    IsImport i := by
  unfold symbolAt at h
  cases hstop : info.stop with
  | none =>
    rw [hstop] at h
    cases h
  | some last =>
    rw [hstop] at h
    cases h
    exact ⟨rfl, rfl, rfl⟩

section Requests

variable {c : Setting} {classes' : ClassTable} {n : Numbering} {a a' : Analysis}
  {p : Pairing a.registry a'.registry}
  (hn : ∀ name, c.classes.contains name = true → n = c.numbering)
  (h : Paired c.classes classes' a a' p)
include hn h

/-- A request has the same outcome on both sides. -/
theorem grant_paired (r : Request) : Likewise p c.classes classes' (grant c a r)
    (grant (c.among classes' n) a' r) := by
  have hidle : Likewise p c.classes classes' (.ok a) (.ok a') := .granted (.refl p) h
  have hclasses (name : String) : Table.contains classes' name = Table.contains c.classes name := by
    rw [h.classes, Table.contains_map]
  have hsymbols (name : String) : a'.symbols.contains name = a.symbols.contains name := by
    rw [h.symbols, Table.contains_map]
  cases r with
  | fail fault => exact .refused fault
  | enter k =>
    rw [grant, grant, Setting.among, h.find_eq k]
    cases k.find c.classes a.symbols with
    | none => exact .refused _
    | some id => exact hidle
  | «import» name info =>
    rw [grant, grant, Setting.among, hclasses, hsymbols]
    split
    · cases hi : (symbolAt c.file c.source .import (Text.afterLast name '.') name info :
        Except Fault Symbol) with
      | error fault => exact .refused fault
      | ok i =>
        obtain ⟨q, hext, hq⟩ := h.withSymbol (isImport_of_symbolAt hi)
        exact .granted hext hq
    · exact hidle
  | super name type =>
    have hfind : Table.get? classes' name = (Table.get? c.classes name).map p.place :=
      h.find_eq (.ofClass name)
    rw [grant, grant, Setting.among, hfind]
    cases hid : Table.get? c.classes name with
    | none => exact hidle
    | some id =>
      obtain ⟨q, hext, hq⟩ := h.change (k := .ofClass name) hid
        (f := fun i => { i with hierarchy := i.hierarchy ++ [type] }) (fun _ _ => rfl) fun _ => rfl
      exact .granted hext hq
  | depend owner name =>
    rw [grant, grant, Setting.among, hsymbols]
    split
    · exact hidle
    split
    · cases owner with
      | none => exact .refused _
      | some k =>
        rw [Option.bind_some, Option.bind_some, h.find_eq k]
        cases hid : k.find c.classes a.symbols with
        | none => exact .refused _
        | some id =>
          obtain ⟨q, hext, hq⟩ := h.change hid
            (f := fun i => { i with dependency := i.dependency ++ [name] })
              (fun _ _ => rfl) fun _ => rfl
          exact .granted hext hq
    · exact .refused _
  | interact source target =>
    rw [grant, grant, Setting.among, hclasses, hclasses]
    split
    · exact hidle
    split
    · next hboth =>
      rw [h.matrix, hn source (Bool.and_eq_true_iff.mp hboth).1]
      cases countInteraction c.numbering a.matrix source target with
      | error fault => exact .refused fault
      | ok m => exact .granted (.refl p) ⟨h.mem_classes, h.mem_symbols, h.classes, h.symbols, rfl⟩
    · exact hidle

/-- Requests are carried out as far on both sides, and are ended by the same fault if by any. -/
theorem carryOut_paired (rs : List Request) :
    (carryOut (c.among classes' n) rs a').1 = (carryOut c rs a).1 ∧
      ∃ q, p.Extends q ∧ Paired c.classes classes' (carryOut c rs a).2
        (carryOut (c.among classes' n) rs a').2 q := by
  induction rs generalizing a a' with
  | nil => exact ⟨rfl, p, .refl p, h⟩
  | cons r rs ih =>
    have hfirst := grant_paired hn h r
    rw [carryOut, carryOut]
    generalize grant c a r = x, grant (c.among classes' n) a' r = x' at hfirst ⊢
    cases hfirst with
    | refused fault => exact ⟨rfl, p, .refl p, h⟩
    | granted hext hq =>
      obtain ⟨hend, u, hu, hpaired⟩ := ih hq
      exact ⟨hend, u, hext.trans hu, hpaired⟩

/-- **A reading of a tree does the same on both sides.** -/
theorem visit_paired (ha : Consistent c a) (tree : ParseTree) :
    ((visit (c.among classes' n) {} tree).run.run a').1 = ((visit c {} tree).run.run a).1 ∧
      ∃ q, p.Extends q ∧ Paired c.classes classes' ((visit c {} tree).run.run a).2
        ((visit (c.among classes' n) {} tree).run.run a').2 q := by
  have ha' : Consistent (c.among classes' n) a' := by
    refine ⟨?_, ?_⟩
    · show Named classes' a'.registry
      rw [h.classes]
      exact p.named ha.classes
    · rw [h.symbols]
      exact p.named ha.symbols
  rw [ha.visit_eq tree, ha'.visit_eq tree]
  exact carryOut_paired hn h (script c.full {} tree)

end Requests

end Analyze

end Coupling.Project
