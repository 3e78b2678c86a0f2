import Coupling.Proofs.Projects

/-!
# Symbols that belong to a class

A method is registered in the symbol it is declared in. A symbol belongs to a class if it is the
class or is registered in a symbol that belongs to it (`Registry.owned`). In a project whose
declarations keep their places that is what the outlines of the files say: a class or interface
belongs to itself only (`Settled.owned_type_iff`), and a method belongs to what the symbol it is
declared in belongs to (`Settled.owned_method_iff`).
-/

namespace Coupling.Project

namespace Registry

/-- The symbols with numbers below `n` that belong to a symbol: itself, and the methods of symbols
that belong to it. A method is younger than the symbol it is registered in. -/
def belonging (r : Registry) (id : SymbolId) : Nat → List SymbolId
  | 0 => []
  | n + 1 =>
    let older := r.belonging id n
    if n = id ∨ ∃ o ∈ older, n ∈ (r.methods o).values then older ++ [n] else older

/-- The symbols that belong to a symbol. -/
def owned (r : Registry) (id : SymbolId) : List SymbolId := r.belonging id r.size

variable {r : Registry} {id : SymbolId}

theorem mem_belonging {n m : Nat} :
    m ∈ r.belonging id n ↔ m < n ∧ (m = id ∨ ∃ o ∈ r.belonging id m, m ∈ (r.methods o).values) := by
  induction n with
  | zero => simp [belonging]
  | succ n ih =>
    have hlast : m < n + 1 ↔ m < n ∨ m = n := by omega
    rw [belonging, hlast]
    split
    · next hn =>
      rw [List.mem_append, List.mem_singleton, ih]
      constructor
      · rintro (⟨hlt, hm⟩ | rfl)
        · exact ⟨.inl hlt, hm⟩
        · exact ⟨.inr rfl, hn⟩
      · rintro ⟨hlt | heq, hm⟩
        · exact .inl ⟨hlt, hm⟩
        · exact .inr heq
    · next hn =>
      rw [ih]
      constructor
      · rintro ⟨hlt, hm⟩
        exact ⟨.inl hlt, hm⟩
      · rintro ⟨hlt | rfl, hm⟩
        · exact ⟨hlt, hm⟩
        · exact absurd hm hn

/-- A symbol belongs to another if it is that one or is registered in an older one that belongs to
it. -/
theorem mem_owned {m : SymbolId} :
    m ∈ r.owned id ↔ m < r.size ∧ (m = id ∨ ∃ o ∈ r.owned id, o < m ∧
      m ∈ (r.methods o).values) := by
  unfold owned
  rw [mem_belonging]
  refine and_congr_right fun hlt => or_congr_right ?_
  constructor
  · rintro ⟨o, ho, hm⟩
    obtain ⟨holt, hreason⟩ := mem_belonging.mp ho
    exact ⟨o, mem_belonging.mpr ⟨Nat.lt_trans holt hlt, hreason⟩, holt, hm⟩
  · rintro ⟨o, ho, holt, hm⟩
    exact ⟨o, mem_belonging.mpr ⟨holt, (mem_belonging.mp ho).2⟩, hm⟩

theorem nodup_belonging (n : Nat) : (r.belonging id n).Nodup := by
  induction n with
  | zero => exact List.nodup_nil
  | succ n ih =>
    rw [belonging]
    split
    · refine List.nodup_append.mpr ⟨ih, List.nodup_singleton n, ?_⟩
      intro a ha b hb heq
      rw [List.mem_singleton] at hb
      rw [heq, hb] at ha
      exact Nat.lt_irrefl n (mem_belonging.mp ha).1
    · exact ih

end Registry

/-! ## Methods of a collected file -/

namespace Collection

/-- What the file was found to hold, both times it was read. -/
def readings (x : Collection) : List Item :=
  firstOutline x.before x.tree ++ secondOutline x.before x.tree

theorem mem_readings {x : Collection} {d : Declaration} (hd : d ∈ declarations x.items) :
    d ∈ declarations x.readings :=
  mem_outlines hd

variable {parse : Parser} {fs : Files} {x : Collection} (h : x.Made parse fs)
include h

theorem Made.pass : Pass x.before.size { registry := x.before } x.readings x.after :=
  collect_pass h.collected

/-- A method that keeps its place is registered in the symbol it is declared in. -/
theorem Made.registered {d : Declaration} (hd : d ∈ declarations x.items) (hkind : d.kind = .method)
    {o : SymbolId}
    (ho : d.scope = some o) (hlasts : Lasts x.after x.items d) :
    d.id ∈ (x.after.registry.methods o).values := by
  obtain ⟨before, -, hsplit⟩ := outlines_split hd
  have hdecls : declarations x.readings = declarations before ++ d ::
    declarations (itemsAfter d.id x.items) := hsplit
  have hfound : (x.after.registry.methods o).get? (x.after.registry.fullName d.id) = some d.id := by
    rw [h.pass.methods_eq, hdecls, List.filter_append,
      List.filter_cons_of_pos (by simp [hkind, ho]), List.map_append, List.map_cons]
    refine Table.get?_update_of_last fun hmem => hlasts.2.1 ?_
    rw [List.map_map] at hmem
    exact List.map_subset _ (List.filter_subset_self _) hmem
  exact Table.mem_values_of_get? hfound

end Collection

/-! ## Files apart -/

namespace Profiler

variable {parse : Parser} {fs : Files}

theorem before_size_le {files : List String} {registry : Registry} {x : Collection}
    (h : x ∈ collections parse fs files registry) : registry.size ≤ x.before.size := by
  induction files generalizing registry with
  | nil => cases h
  | cons file files ih =>
    rw [collections] at h
    split at h
    · cases h
    · split at h
      · exact ih h
      · next after hafter =>
        have hle : registry.size ≤ after.registry.size :=
          Registry.Later.size_le fun id o ho => ⟨o, collect_old hafter ho, rfl⟩
        rcases List.mem_cons.mp h with rfl | h
        · exact Nat.le_refl _
        · exact Nat.le_trans hle (ih h)

/-- Files are collected one after the other, and the numbers of their symbols follow one another. -/
theorem collections_pairwise (files : List String) (registry : Registry) :
    (collections parse fs files registry).Pairwise fun x y =>
    x.after.registry.size ≤ y.before.size := by
  induction files generalizing registry with
  | nil => exact List.Pairwise.nil
  | cons file files ih =>
    rw [collections]
    split
    · exact List.Pairwise.nil
    · split
      · exact ih registry
      · exact List.Pairwise.cons (fun y hy => before_size_le hy) (ih _)

end Profiler

/-- Files that were collected one after the other into a registry, where they still are. -/
structure Settled (parse : Parser) (fs : Files) (xs : List Collection) (r : Registry) : Prop where
  made : ∀ x ∈ xs, x.Made parse fs
  apart : xs.Pairwise fun x y => x.after.registry.size ≤ y.before.size
  later : ∀ x ∈ xs, x.after.registry.Later r

namespace Settled

variable {parse : Parser} {fs : Files} {xs : List Collection} {r : Registry} {x y : Collection}
  {d d' : Declaration}
  (h : Settled parse fs xs r) (hx : x ∈ xs)
include h hx

theorem get? (hd : d ∈ declarations x.readings) :
    x.before.size ≤ d.id ∧ ∃ s, x.after.registry.get? d.id = some s := by
  obtain ⟨hle, s, hs, -⟩ := (h.made x hx).pass.described hd
  exact ⟨hle, s, hs⟩

theorem lt_size (hd : d ∈ declarations x.readings) : d.id < r.size := by
  obtain ⟨-, s, hs⟩ := h.get? hx hd
  exact Nat.lt_of_lt_of_le (Registry.lt_size_of_get? hs) (h.later x hx).size_le

/-- A number is that of one declaration of one file. -/
theorem eq_of_id (hy : y ∈ xs) (hd : d ∈ declarations x.readings)
    (hd' : d' ∈ declarations y.readings) (hid : d.id = d'.id) : d = d' := by
  obtain ⟨hlow, s, hs⟩ := h.get? hx hd
  obtain ⟨hlow', s', hs'⟩ := h.get? hy hd'
  have hhigh := Registry.lt_size_of_get? hs
  have hhigh' := Registry.lt_size_of_get? hs'
  rw [hid] at hlow hhigh
  -- Of two files, the symbols of the one collected first have the lower numbers.
  have hpair := h.apart
  obtain ⟨pre, post, rfl⟩ := List.append_of_mem hx
  obtain ⟨-, hpost, hpre⟩ := List.pairwise_append.mp hpair
  rcases List.mem_append.mp hy with hmem | hmem
  · exact absurd (Nat.le_trans (hpre y hmem x List.mem_cons_self) hlow) (Nat.not_le_of_lt hhigh')
  · rcases List.mem_cons.mp hmem with rfl | hmem
    · exact (outlines_ordered y.before y.tree).eq_of_id hd hd' hid
    · have hle := (List.pairwise_cons.mp hpost).1 y hmem
      exact absurd (Nat.le_trans hle hlow') (Nat.not_le_of_lt hhigh)

/-- Methods are registered as they were when their file was collected. -/
theorem methods_eq {o : SymbolId} (ho : o < x.after.registry.size) :
    r.methods o = x.after.registry.methods o := by
  obtain ⟨s, hs⟩ := Registry.exists_get? ho
  obtain ⟨s', hs', hmethods⟩ := (h.later x hx).methods hs
  rw [Registry.methods_of_get? hs, Registry.methods_of_get? hs', hmethods]

variable (hd : d ∈ declarations x.readings)
include hd

/-- What is registered in a declared symbol is a method that is declared in it. -/
theorem declared_of_registered {m : SymbolId} (hm : m ∈ (r.methods d.id).values) :
    ∃ e ∈ declarations x.readings, e.kind = .method ∧ e.scope = some d.id ∧ e.id = m := by
  obtain ⟨hle, s, hs⟩ := h.get? hx hd
  rw [h.methods_eq hx (Registry.lt_size_of_get? hs)] at hm
  exact (h.made x hx).pass.declared_of_method hle hm

/-- What belongs to a declared symbol is declared in the same file. -/
theorem declared_of_owned {m : SymbolId} (hm : m ∈ r.owned d.id) :
    ∃ e ∈ declarations x.readings, e.id = m := by
  -- The symbol that `m` is registered in has a lower number.
  induction m using Nat.strongRecOn with
  | ind m ih =>
    obtain ⟨-, rfl | ⟨o, ho, hlt, hreg⟩⟩ := Registry.mem_owned.mp hm
    · exact ⟨d, hd, rfl⟩
    · obtain ⟨e, he, rfl⟩ := ih o hlt ho
      obtain ⟨e', he', -, -, hid⟩ := h.declared_of_registered hx he hreg
      exact ⟨e', he', hid⟩

/-- What belongs to a declared symbol and is not that symbol is a method, declared in what belongs
to it too. -/
theorem scope_of_owned (hy : y ∈ xs) (hd' : d' ∈ declarations y.readings)
    (howned : d'.id ∈ r.owned d.id)
    (hne : d'.id ≠ d.id) : d'.kind = .method ∧ ∃ o ∈ r.owned d.id, d'.scope = some o := by
  obtain ⟨-, heq | ⟨o, ho, -, hreg⟩⟩ := Registry.mem_owned.mp howned
  · exact absurd heq hne
  · obtain ⟨e, he, rfl⟩ := h.declared_of_owned hx hd ho
    obtain ⟨e', he', hkind, hscope, hid⟩ := h.declared_of_registered hx he hreg
    obtain rfl := h.eq_of_id hx hy he' hd' hid
    exact ⟨hkind, e.id, ho, hscope⟩

/-- A class or interface belongs to itself only. -/
theorem owned_type_iff (hy : y ∈ xs) (hd' : d' ∈ declarations y.readings)
    (hkind : d'.kind ≠ .method) :
    d'.id ∈ r.owned d.id ↔ d'.id = d.id := by
  constructor
  · intro howned
    by_contra hne
    exact hkind (h.scope_of_owned hx hd hy hd' howned hne).1
  · intro heq
    exact Registry.mem_owned.mpr ⟨h.lt_size hy hd', .inl heq⟩

/-- A method that keeps its place belongs to a class if the symbol it is declared in does. -/
theorem owned_method_iff (hclass : d.kind ≠ .method) (hy : y ∈ xs) (hd' : d' ∈ declarations y.items)
    (hkind : d'.kind = .method) (hlasts : Lasts y.after y.items d') {o : SymbolId}
    (ho : d'.scope = some o) :
    d'.id ∈ r.owned d.id ↔ o ∈ r.owned d.id := by
  have hread := Collection.mem_readings hd'
  constructor
  · intro howned
    have hne : d'.id ≠ d.id := by
      intro heq
      obtain rfl := h.eq_of_id hy hx hread hd heq
      exact hclass hkind
    obtain ⟨-, o', ho', hscope⟩ := h.scope_of_owned hx hd hy hread howned hne
    rw [ho, Option.some_inj] at hscope
    rwa [hscope]
  · intro howned
    obtain ⟨-, s, hs⟩ := h.get? hy hread
    have hlt := ((outlines_ordered y.before y.tree).scope_lt hread ho).2
    have hreg := (h.made y hy).registered hd' hkind ho hlasts
    rw [← h.methods_eq hy (Nat.lt_trans hlt (Registry.lt_size_of_get? hs))] at hreg
    exact Registry.mem_owned.mpr ⟨h.lt_size hy hread, .inr ⟨o, howned, hlt, hreg⟩⟩

end Settled

end Coupling.Project
