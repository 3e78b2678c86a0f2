import Mathlib.Data.List.Perm.Basic
import Coupling.Proofs.Ownership
import Coupling.Proofs.Profiles
import Coupling.Proofs.Scripts

/-!
# Collections in another arrangement

Where a file stands among the files of a project decides the numbers of its symbols and nothing
else. Two lists of collections are compared by a renumbering (`Moves`) that takes what is found
under a name or under a number in one list to what is found there in the other. There is one for
every other order of files that share no name (`moves_perm`), and one for a file that is put in
between (`moves_insert`).
-/

namespace Coupling.Project

/-! ## Numbers in a list of collections -/

/-- What can be relied on in a collection: a name stands for a symbol of the file that has this
name, and a method is a symbol of the file that is younger than what it belongs to. -/
structure Collection.Whole (x : Collection) : Prop where
  nodup_symbols : x.after.symbols.keys.Nodup
  nodup_classes : x.after.classes.keys.Nodup
  contains_symbol : ∀ name, x.after.classes.contains name = true →
    x.after.symbols.contains name = true
  named : ∀ (h : Handle) id, h.find x.after.classes x.after.symbols = some id →
    ∃ i, x.after.registry.get? id = some i ∧ i.fullName = h.name
  methods : ∀ (id : Nat) i (m : Nat), x.after.registry.get? id = some i → m ∈ i.methods.values →
    id < m ∧ m < x.after.registry.size

variable {x y : Collection} {g h : Handle} {xs : List Collection} {r : Registry} {k : Nat}
  {i : Symbol} {φ : Nat → Nat}
  {f : Request → Option String}

/-- The collection of a file on its own is whole. -/
theorem Collection.Made.whole {parse : Parser} {fs : Files} (h : x.Made parse fs)
    (hbefore : x.before = .empty) :
    x.Whole where
  nodup_symbols := h.nodup_symbols
  nodup_classes := h.nodup_classes
  contains_symbol _ := h.contains_symbol
  named k id hid := by
    cases k with
    | ofClass name => exact collect_named h.collected (Table.mem_entries_of_get? hid)
    | ofSymbol name =>
      obtain ⟨i, hi, hname, -⟩ := collect_symbols h.collected (Table.mem_entries_of_get? hid)
      exact ⟨i, hi, hname⟩
  methods id i m hi hm := by
    rw [← Registry.methods_of_get? hi] at hm
    obtain ⟨d, hd, -, hscope, rfl⟩ :=
      h.pass.declared_of_method (by rw [hbefore]; exact Nat.zero_le _) hm
    obtain ⟨-, s, hs, -⟩ := h.pass.described hd
    exact ⟨((outlines_ordered x.before x.tree).scope_lt hd hscope).2, Registry.lt_size_of_get? hs⟩

/-- A name that stands for something is the name of a symbol. -/
theorem Collection.Whole.contains_name (h : x.Whole)
    (hg : (g.find x.after.classes x.after.symbols).isSome = true) :
    x.after.symbols.contains g.name = true := by
  cases g with
  | ofClass name => exact h.contains_symbol name hg
  | ofSymbol name => exact hg

/-- What a name stands for in collections that are numbered from `k` on. Later ones count. -/
def numberOf (h : Handle) (k : Nat) : List Collection → Option Nat
  | [] => none
  | x :: xs => (numberOf h (k + x.after.registry.size) xs).or
    ((h.find x.after.classes x.after.symbols).map (· + k))

/-- The symbol with a number in collections that are numbered from `k` on. -/
def symbolIn (k : Nat) : List Collection → Nat → Option Symbol
  | [], _ => none
  | x :: xs, id =>
    if id < k + x.after.registry.size then (x.after.registry.get? (id - k)).map (·.shift k)
    else symbolIn (k + x.after.registry.size) xs id

theorem get?_updateAll_placed {f : Collection → Table SymbolId}
    (hf : ∀ r x, f (Collection.onto r x) = (f x).shift r.size)
    (hg : ∀ x, (f x).get? g.name = g.find x.after.classes x.after.symbols) (r : Registry)
    (t : Table SymbolId) (xs : List Collection) (hxs : ∀ x ∈ xs, (f x).keys.Nodup) :
    (((placed r xs).map f).foldl Table.update t).get? g.name =
      (numberOf g r.size xs).or (t.get? g.name) := by
  induction xs generalizing r t with
  | nil => rfl
  | cons x xs ih =>
    have hnodup : (f (x.onto r)).keys.Nodup := by
      rw [hf, Table.keys_shift]
      exact hxs x List.mem_cons_self
    rw [placed, List.map_cons, List.foldl_cons, ih _ _ fun y hy =>
      hxs y (List.mem_cons_of_mem _ hy), Table.get?_update_table hnodup, hf, Table.get?_shift, hg,
        numberOf, Registry.size_onto, Option.or_assoc]

/-- What a name stands for in a project. -/
theorem find_project (hxs : ∀ x ∈ xs, x.Whole) (r : Registry) (h : Handle) :
    h.find (classesOf r xs) (symbolsOf r xs) = numberOf h r.size xs := by
  cases h with
  | ofClass name =>
    exact (get?_updateAll_placed (g := .ofClass name) (fun _ _ => rfl) (fun _ => rfl) r ∅ xs
      fun x hx => (hxs x hx).nodup_classes).trans Option.or_none
  | ofSymbol name =>
    exact (get?_updateAll_placed (g := .ofSymbol name) (fun _ _ => rfl) (fun _ => rfl) r ∅ xs
      fun x hx => (hxs x hx).nodup_symbols).trans Option.or_none

theorem get?_stack_of_lt {id : SymbolId} (xs : List Collection) (h : id < r.size) :
    (stack r xs).get? id = r.get? id := by
  induction xs generalizing r with
  | nil => rfl
  | cons x xs ih =>
    have hlt : id < (r.onto x.after.registry).size := by
      rw [Registry.size_onto]
      exact Nat.lt_add_right _ h
    exact (ih hlt).trans (Registry.get?_onto_of_lt _ h)

theorem get?_stack {id : Nat} (xs : List Collection) (h : r.size ≤ id) :
    (stack r xs).get? id = symbolIn r.size xs id := by
  induction xs generalizing r with
  | nil => exact Registry.get?_eq_none h
  | cons x xs ih =>
    rw [symbolIn, ← Registry.size_onto]
    show (stack (r.onto x.after.registry) xs).get? id = _
    split
    · next hlt =>
      obtain ⟨j, rfl⟩ : ∃ j, id = j + r.size := ⟨id - r.size, by omega⟩
      rw [get?_stack_of_lt xs hlt, Registry.get?_onto, Nat.add_sub_cancel]
    · next hge => exact ih (Nat.le_of_not_lt hge)

theorem numberOf_isSome :
    (numberOf h k xs).isSome = true ↔ ∃ x ∈ xs, (h.find x.after.classes x.after.symbols).isSome =
      true := by
  induction xs generalizing k with
  | nil => simp [numberOf]
  | cons x xs ih =>
    rw [numberOf, Option.isSome_or, Bool.or_eq_true, ih, Option.isSome_map]
    simp [or_comm]

theorem le_numberOf {id : Nat} (hid : numberOf h k xs = some id) : k ≤ id := by
  induction xs generalizing k with
  | nil => cases hid
  | cons x xs ih =>
    rw [numberOf, Option.or_eq_some_iff] at hid
    rcases hid with hid | ⟨-, hid⟩
    · exact Nat.le_trans (Nat.le_add_right _ _) (ih hid)
    · obtain ⟨j, -, rfl⟩ := Option.map_eq_some_iff.mp hid
      exact Nat.le_add_left _ _

/-- What a name stands for has this name. -/
theorem symbolIn_numberOf {id : Nat} (hxs : ∀ x ∈ xs, x.Whole) (hid : numberOf h k xs = some id) :
    ∃ i, symbolIn k xs id = some i ∧ i.fullName = h.name := by
  induction xs generalizing k with
  | nil => cases hid
  | cons x xs ih =>
    rw [numberOf, Option.or_eq_some_iff] at hid
    rcases hid with hid | ⟨-, hid⟩
    · rw [symbolIn, if_neg (Nat.not_lt.mpr (le_numberOf hid))]
      exact ih (fun y hy => hxs y (List.mem_cons_of_mem _ hy)) hid
    · obtain ⟨(j : Nat), hj, rfl⟩ := Option.map_eq_some_iff.mp hid
      obtain ⟨i, hi, hname⟩ := (hxs x List.mem_cons_self).named h j hj
      have hlt : j + k < k + x.after.registry.size := by
        have hsize : j < x.after.registry.size := Registry.lt_size_of_get? hi
        omega
      rw [symbolIn, if_pos hlt, Nat.add_sub_cancel, hi]
      exact ⟨_, rfl, hname⟩

/-- Methods are symbols of the list that are younger than what they belong to. -/
theorem symbolIn_methods {id m : Nat} (hxs : ∀ x ∈ xs, x.Whole) (hle : k ≤ id)
    (hi : symbolIn k xs id = some i)
    (hm : m ∈ i.methods.values) : id < m ∧ ∃ i', symbolIn k xs m = some i' := by
  induction xs generalizing k with
  | nil => cases hi
  | cons x xs ih =>
    rw [symbolIn] at hi
    split at hi
    · obtain ⟨i₀, hi₀, rfl⟩ := Option.map_eq_some_iff.mp hi
      obtain ⟨(m₀ : Nat), hm₀, rfl⟩ := List.mem_map.mp ((Table.values_shift k i₀.methods) ▸ hm)
      obtain ⟨hlt, hsize⟩ := (hxs x List.mem_cons_self).methods _ _ _ hi₀ hm₀
      obtain ⟨i', hi'⟩ := Registry.exists_get? hsize
      have hin : m₀ + k < k + x.after.registry.size := by omega
      refine ⟨by omega, i'.shift k, ?_⟩
      rw [symbolIn, if_pos hin, Nat.add_sub_cancel, hi']
      rfl
    · next hge =>
      obtain ⟨hlt, i', hi'⟩ := ih (fun y hy => hxs y (List.mem_cons_of_mem _ hy))
        (Nat.le_of_not_lt hge) hi
      refine ⟨hlt, i', ?_⟩
      rw [symbolIn, if_neg (by omega)]
      exact hi'

/-! ## Renumbering -/

/-- A symbol with other numbers for its methods. -/
def Symbol.move (φ : Nat → Nat) (i : Symbol) : Symbol :=
  { i with methods := ⟨i.methods.entries.map fun e => (e.1, φ e.2)⟩ }

theorem Symbol.move_congr {ψ : Nat → Nat} (h : ∀ m ∈ i.methods.values, φ m = ψ m) :
    i.move φ = i.move ψ := by
  unfold Symbol.move
  congr 2
  exact List.map_congr_left fun e he => congrArg (Prod.mk e.1) (h e.2 (List.mem_map_of_mem he))

theorem Symbol.move_id (i : Symbol) : i.move id = i := by
  simp [Symbol.move]

/-- Moving up is renumbering. -/
theorem Symbol.move_eq_shift (h : ∀ m ∈ i.methods.values, φ m = m + k) :
    i.move φ = i.shift k :=
  Symbol.move_congr h

theorem Symbol.move_move (φ ψ : Nat → Nat) (i : Symbol) :
    (i.move φ).move ψ = i.move fun id => ψ (φ id) := by
  simp [Symbol.move, Function.comp_def]

/-- Moving up and then renumbering, where the renumbering moves as well. -/
theorem Symbol.move_shift {k' : Nat} (h : ∀ m ∈ i.methods.values, φ (m + k) = m + k') :
    (i.shift k).move φ = i.shift k' :=
  (Symbol.move_move (· + k) φ i).trans (Symbol.move_congr h)

/-- No symbol of the one file has the name of a symbol of the other. -/
def Collection.Apart (x y : Collection) : Prop :=
  ∀ name, x.after.symbols.contains name = true → y.after.symbols.contains name = false

instance (x y : Collection) : Decidable (x.Apart y) :=
  decidable_of_iff (∀ name ∈ x.after.symbols.keys, y.after.symbols.contains name = false)
    (forall_congr' fun _ => imp_congr_left Table.contains_iff_mem_keys.symm)

theorem Collection.Apart.symm (h : x.Apart y) : y.Apart x := by
  intro name hy
  by_contra hx
  rw [h name (Bool.not_eq_false _ ▸ hx)] at hy
  cases hy

/-- Files that share no name find nothing under the same name. -/
theorem Collection.Apart.find (h : x.Apart y) (hx : x.Whole) (hy : y.Whole) {k : Handle}
    (hk : (k.find x.after.classes x.after.symbols).isSome = true) :
    k.find y.after.classes y.after.symbols = none := by
  by_contra hne
  have hname := h k.name (hx.contains_name hk)
  rw [hy.contains_name (Option.isSome_iff_ne_none.mpr hne)] at hname
  cases hname

/-- What is found in one list of collections is found in the other, under numbers that `φ` gives. -/
structure Moves (k : Nat) (xs xs' : List Collection) (φ : Nat → Nat) : Prop where
  injective : ∀ id id', φ id = φ id' → id = id'
  low : ∀ id < k, φ id = id
  symbol : ∀ id i, k ≤ id → symbolIn k xs id = some i → symbolIn k xs' (φ id) = some (i.move φ)
  number : ∀ h id, numberOf h k xs = some id → numberOf h k xs' = some (φ id)

namespace Moves

variable {k : Nat} {xs xs' xs'' : List Collection} {φ ψ : Nat → Nat}

theorem high (h : Moves k xs xs' φ) {id : Nat} (hle : k ≤ id) : k ≤ φ id := by
  by_contra hlt
  have hsame := h.injective id (φ id) (h.low _ (Nat.lt_of_not_le hlt)).symm
  exact hlt (hsame ▸ hle)

theorem nil (k : Nat) : Moves k [] [] id where
  injective _ _ h := h
  low _ _ := rfl
  symbol _ _ _ h := by cases h
  number _ _ h := by cases h

theorem trans (h : Moves k xs xs' φ) (h' : Moves k xs' xs'' ψ) :
    Moves k xs xs'' fun id => ψ (φ id) where
  injective id id' heq := h.injective _ _ (h'.injective _ _ heq)
  low id hlt := by rw [h.low id hlt, h'.low id hlt]
  symbol id i hle hi := by
    rw [h'.symbol _ _ (h.high hle) (h.symbol id i hle hi), Symbol.move_move]
  number k id hid := h'.number k _ (h.number k id hid)

/-- A file in front of both lists. What is new in the other list must not have its names. -/
theorem cons {x : Collection} (h : Moves (k + x.after.registry.size) xs xs' φ) (hx : x.Whole)
    (hxs' : ∀ y ∈ xs', y.Whole) (hnew : ∀ y ∈ xs', y ∈ xs ∨ x.Apart y) :
    Moves k (x :: xs) (x :: xs') φ where
  injective := h.injective
  low id hlt := h.low id (Nat.lt_add_right _ hlt)
  symbol id i hle hi := by
    rw [symbolIn] at hi ⊢
    split at hi
    · next hlt =>
      obtain ⟨i₀, hi₀, rfl⟩ := Option.map_eq_some_iff.mp hi
      rw [h.low id hlt, if_pos hlt, hi₀, Symbol.move_shift fun m hm => h.low _ ?_]
      · rfl
      · have := (hx.methods _ _ _ hi₀ hm).2
        omega
    · next hge =>
      rw [if_neg (Nat.not_lt.mpr (h.high (Nat.le_of_not_lt hge)))]
      exact h.symbol id i (Nat.le_of_not_lt hge) hi
  number g id hid := by
    rw [numberOf, Option.or_eq_some_iff] at hid ⊢
    rcases hid with hid | ⟨hnone, hid⟩
    · exact .inl (h.number g id hid)
    · obtain ⟨(j : Nat), hj, rfl⟩ := Option.map_eq_some_iff.mp hid
      refine .inr ⟨?_, ?_⟩
      · by_contra hsome
        obtain ⟨y, hy, hfound⟩ := numberOf_isSome.mp (Option.isSome_iff_ne_none.mpr hsome)
        rcases hnew y hy with hold | hapart
        · have hsome' := numberOf_isSome (k := k + x.after.registry.size).mpr ⟨y, hold, hfound⟩
          rw [hnone] at hsome'
          cases hsome'
        · rw [hapart.find hx (hxs' y hy) (by rw [hj]; rfl)] at hfound
          cases hfound
      · obtain ⟨i, hi, -⟩ := hx.named g j hj
        have hlt : j < x.after.registry.size := Registry.lt_size_of_get? hi
        rw [hj, h.low _ (by omega)]
        rfl

end Moves

/-! ## Another order -/

/-- The numbers when two blocks of `a` and of `b` symbols change places. -/
def exchange (k a b id : Nat) : Nat :=
  if id < k then id else if id < k + a then id + b else if id < k + a + b then id - a else id

section Exchange

variable {k a b : Nat}

theorem exchange_first {j : Nat} (h : j < a) : exchange k a b (j + k) = j + (k + b) := by
  unfold exchange
  rw [if_neg (by omega), if_pos (by omega), Nat.add_assoc]

theorem exchange_second {j : Nat} (h : j < b) : exchange k a b (j + (k + a)) = j + k := by
  unfold exchange
  rw [if_neg (by omega), if_neg (by omega), if_pos (by omega)]
  omega

theorem exchange_rest {id : Nat} (h : k + a + b ≤ id) : exchange k a b id = id := by
  unfold exchange
  rw [if_neg (by omega), if_neg (by omega), if_neg (by omega)]

theorem exchange_injective {id id' : Nat} (h : exchange k a b id = exchange k a b id') :
    id = id' := by
  unfold exchange at h
  grind

end Exchange

/-- The symbol with a number in the first of the collections. -/
theorem symbolIn_first {j : Nat} (h : j < x.after.registry.size) :
    symbolIn k (x :: xs) (j + k) = (x.after.registry.get? j).map (·.shift k) := by
  rw [symbolIn, if_pos (by omega), Nat.add_sub_cancel]

theorem symbolIn_rest {id : Nat} (h : k + x.after.registry.size ≤ id) :
    symbolIn k (x :: xs) id = symbolIn (k + x.after.registry.size) xs id := by
  rw [symbolIn, if_neg (Nat.not_lt.mpr h)]

/-- The symbols of a file have their own numbers, all raised by the same amount. -/
theorem exists_offset (pre post : List Collection) (x : Collection) (k : Nat) : ∃ n : Nat, k ≤ n ∧
    (∀ j < x.after.registry.size, symbolIn k (pre ++ x :: post) (j + n) =
      (x.after.registry.get? j).map (·.shift n)) ∧
    ∀ (h : Handle) (j : Nat), h.find x.after.classes x.after.symbols = some j →
      (∀ y ∈ post, h.find y.after.classes y.after.symbols = none) →
      numberOf h k (pre ++ x :: post) = some (j + n) := by
  induction pre generalizing k with
  | nil =>
    refine ⟨k, Nat.le_refl k, fun j hj => symbolIn_first hj, fun h j hj hpost => ?_⟩
    have hnone : numberOf h (k + x.after.registry.size) post = none := by
      by_contra hsome
      obtain ⟨y, hy, hfound⟩ := numberOf_isSome.mp (Option.isSome_iff_ne_none.mpr hsome)
      rw [hpost y hy] at hfound
      cases hfound
    rw [List.nil_append, numberOf, hnone, hj]
    rfl
  | cons y pre ih =>
    obtain ⟨n, hle, hsymbols, hnumbers⟩ := ih (k + y.after.registry.size)
    refine ⟨n, Nat.le_trans (Nat.le_add_right _ _) hle, fun j hj => ?_, fun h j hj hpost => ?_⟩
    · rw [List.cons_append, symbolIn_rest (by omega)]
      exact hsymbols j hj
    · rw [List.cons_append, numberOf, hnumbers h j hj hpost]
      rfl

section Swap

variable {k : Nat} {x y : Collection} {xs : List Collection} (hx : x.Whole) (hy : y.Whole)
include hx hy

/-- Where two files change places, the symbols of each are found where the other's were. -/
theorem symbolIn_exchange (hxs : ∀ z ∈ xs, z.Whole) {id : Nat} (hle : k ≤ id) {i : Symbol}
    (hi : symbolIn k (x :: y :: xs) id = some i) :
    symbolIn k (y :: x :: xs) (exchange k x.after.registry.size y.after.registry.size id) =
      some (i.move (exchange k x.after.registry.size y.after.registry.size)) := by
  generalize ha : x.after.registry.size = a
  generalize hb : y.after.registry.size = b
  -- The number belongs to the first file, to the second, or to the others, which stay where they
  -- are.
  by_cases hfirst : id < k + a
  · obtain ⟨j, rfl⟩ : ∃ j, id = j + k := ⟨id - k, by omega⟩
    have hj : j < a := by omega
    rw [symbolIn_first (ha ▸ hj)] at hi
    obtain ⟨i₀, hi₀, rfl⟩ := Option.map_eq_some_iff.mp hi
    rw [exchange_first hj, symbolIn_rest (by omega), hb, symbolIn_first (ha ▸ hj), hi₀,
      Symbol.move_shift fun m hm => exchange_first (ha ▸ (hx.methods _ _ _ hi₀ hm).2)]
    rfl
  rw [symbolIn_rest (by omega), ha] at hi
  by_cases hsecond : id < k + a + b
  · obtain ⟨j, rfl⟩ : ∃ j, id = j + (k + a) := ⟨id - (k + a), by omega⟩
    have hj : j < b := by omega
    rw [symbolIn_first (hb ▸ hj)] at hi
    obtain ⟨i₀, hi₀, rfl⟩ := Option.map_eq_some_iff.mp hi
    rw [exchange_second hj, symbolIn_first (hb ▸ hj), hi₀,
      Symbol.move_shift fun m hm => exchange_second (hb ▸ (hy.methods _ _ _ hi₀ hm).2)]
    rfl
  rw [symbolIn_rest (by omega), hb] at hi
  have hsame : i.move (exchange k a b) = i := by
    refine (Symbol.move_congr fun m hm => ?_).trans i.move_id
    have hlt : id < m := (symbolIn_methods hxs (by omega) hi hm).1
    exact exchange_rest (by omega)
  rw [exchange_rest (by omega), symbolIn_rest (by omega), symbolIn_rest (by omega), hsame, ha, hb,
    Nat.add_right_comm]
  exact hi

/-- Names are found as before, if only one of the files has them. -/
theorem numberOf_exchange (hapart : x.Apart y) {g : Handle} {id : Nat}
    (hid : numberOf g k (x :: y :: xs) = some id) :
    numberOf g k (y :: x :: xs) =
      some (exchange k x.after.registry.size y.after.registry.size id) := by
  have hlt {z : Collection} (hz : z.Whole) {j : Nat}
      (hj : g.find z.after.classes z.after.symbols = some j) :
      j < z.after.registry.size := by
    obtain ⟨i, hi, -⟩ := hz.named g j hj
    exact Registry.lt_size_of_get? hi
  simp only [numberOf, Option.or_eq_some_iff] at hid ⊢
  rw [Nat.add_right_comm]
  rcases hid with (hid | ⟨hrest, hid⟩) | ⟨hnone, hid⟩
  · exact .inl (.inl (by rw [exchange_rest (le_numberOf hid)]; exact hid))
  · obtain ⟨(j : Nat), hj, rfl⟩ := Option.map_eq_some_iff.mp hid
    have hother := hapart.symm.find hy hx (by rw [hj]; rfl)
    refine .inr ⟨?_, ?_⟩
    · rw [hrest, hother]
      rfl
    · rw [hj, exchange_second (hlt hy hj)]
      rfl
  · obtain ⟨(j : Nat), hj, rfl⟩ := Option.map_eq_some_iff.mp hid
    refine .inl (.inr ⟨(Option.or_eq_none_iff.mp hnone).1, ?_⟩)
    rw [hj, exchange_first (hlt hx hj)]
    rfl

/-- Two files that share no name may change places. -/
theorem moves_swap (hxs : ∀ z ∈ xs, z.Whole) (hapart : x.Apart y) :
    Moves k (x :: y :: xs) (y :: x :: xs) (exchange k x.after.registry.size y.after.registry.size)
      where
  injective _ _ := exchange_injective
  low _ hlt := if_pos hlt
  symbol _ _ hle hi := symbolIn_exchange hx hy hxs hle hi
  number _ _ hid := numberOf_exchange hx hy hapart hid

end Swap

/-- **Another order.** Files that share no name can stand in any order: their symbols get other
numbers. -/
theorem moves_perm {xs' : List Collection} (h : xs.Perm xs') (k : Nat) (hxs : ∀ x ∈ xs, x.Whole)
    (hapart : xs.Pairwise Collection.Apart) : ∃ φ, Moves k xs xs' φ := by
  induction h generalizing k with
  | nil => exact ⟨id, .nil k⟩
  | cons x hperm ih =>
    obtain ⟨hx, hrest⟩ := List.forall_mem_cons.mp hxs
    obtain ⟨φ, hφ⟩ := ih (k + x.after.registry.size) hrest hapart.tail
    exact ⟨φ, hφ.cons hx (fun y hy => hrest y (hperm.mem_iff.mpr hy)) fun y hy =>
      .inl (hperm.mem_iff.mpr hy)⟩
  | swap x y xs =>
    obtain ⟨hy, hx, hrest⟩ := List.forall_mem_cons.mp hxs |>.imp_right List.forall_mem_cons.mp
    exact ⟨_, moves_swap hy hx hrest ((List.pairwise_cons.mp hapart).1 x List.mem_cons_self)⟩
  | trans h₁ h₂ ih₁ ih₂ =>
    obtain ⟨φ, hφ⟩ := ih₁ k hxs hapart
    obtain ⟨ψ, hψ⟩ := ih₂ k (fun x hx => hxs x (h₁.mem_iff.mpr hx))
      (h₁.pairwise hapart fun h => h.symm)
    exact ⟨_, hφ.trans hψ⟩

/-! ## One file more -/

theorem numberOf_add (h : Handle) (k d : Nat) (xs : List Collection) :
    numberOf h (k + d) xs = (numberOf h k xs).map (· + d) := by
  induction xs generalizing k with
  | nil => rfl
  | cons x xs ih =>
    rw [numberOf, numberOf, Nat.add_right_comm, ih, Option.map_or, Option.map_map]
    congr 2
    funext j
    exact (Nat.add_assoc j k d).symm

theorem symbolIn_add {id : Nat} (hle : k ≤ id) (d : Nat) (xs : List Collection) :
    symbolIn (k + d) xs (id + d) = (symbolIn k xs id).map (·.shift d) := by
  induction xs generalizing k with
  | nil => rfl
  | cons x xs ih =>
    by_cases hlt : id < k + x.after.registry.size
    · obtain ⟨j, rfl⟩ : ∃ j, id = j + k := ⟨id - k, by omega⟩
      have hj : j < x.after.registry.size := by omega
      rw [Nat.add_assoc, symbolIn_first hj, symbolIn_first hj, Option.map_map]
      congr 1
      funext i
      exact ((Symbol.move_move (· + k) (· + d) i).trans (Symbol.move_congr fun m _ =>
        Nat.add_assoc m k d)).symm
    · rw [symbolIn_rest (by omega), symbolIn_rest (by omega), Nat.add_right_comm]
      exact ih (by omega)

/-- A file may be put in front of others, which get higher numbers. -/
theorem moves_front (k : Nat) (z : Collection) (hxs : ∀ x ∈ xs, x.Whole) :
    Moves k xs (z :: xs) fun id => if id < k then id else id + z.after.registry.size where
  injective id id' heq := by grind
  low id hlt := if_pos hlt
  symbol id i hle hi := by
    have hshift : i.move (fun id => if id < k then id else id + z.after.registry.size) =
        i.shift z.after.registry.size := Symbol.move_eq_shift fun m hm => by
      have hlt : id < m := (symbolIn_methods hxs hle hi hm).1
      exact if_neg (by omega)
    rw [if_neg (Nat.not_lt.mpr hle), symbolIn_rest (by omega), symbolIn_add hle, hi, hshift]
    rfl
  number g id hid := by
    rw [numberOf, numberOf_add, hid, if_neg (Nat.not_lt.mpr (le_numberOf hid))]
    rfl

/-- **One file more.** A file that shares no name with those before it may be put in between. -/
theorem moves_insert {ps qs : List Collection} {z : Collection} (k : Nat)
    (hxs : ∀ x ∈ ps ++ qs, x.Whole) (hz : z.Whole)
    (hapart : ∀ x ∈ ps, x.Apart z) : ∃ φ, Moves k (ps ++ qs) (ps ++ z :: qs) φ := by
  induction ps generalizing k with
  | nil => exact ⟨_, moves_front k z hxs⟩
  | cons x ps ih =>
    obtain ⟨hx, hrest⟩ := List.forall_mem_cons.mp hxs
    obtain ⟨hxz, hps⟩ := List.forall_mem_cons.mp hapart
    obtain ⟨φ, hφ⟩ := ih (k + x.after.registry.size) hrest hps
    have hcases (y : Collection) (hy : y ∈ ps ++ z :: qs) : y = z ∨ y ∈ ps ++ qs := by
      simp only [List.mem_append, List.mem_cons] at hy ⊢
      tauto
    refine ⟨φ, hφ.cons hx (fun y hy => ?_) fun y hy => ?_⟩
    · rcases hcases y hy with rfl | hold
      · exact hz
      · exact hrest y hold
    · rcases hcases y hy with rfl | hold
      · exact .inr hxz
      · exact .inl hold

/-! ## What a file adds to a symbol -/

/-- The symbol that a request adds something to. -/
def Request.subject? : Request → Option Handle
  | .depend owner _ => owner
  | .super name _ => some (.ofClass name)
  | _ => none

/-- Requests add something to a symbol only where it is found. -/
def Adds (find : Handle → Option SymbolId) (id : SymbolId) (f : Request → Option String) : Prop :=
  ∀ q name, f q = some name → ∃ h, q.subject? = some h ∧ find h = some id

theorem adds_dependency (classes : ClassTable) (symbols : Table SymbolId) (id : SymbolId) :
    Adds (·.find classes symbols) id (·.dependency? classes symbols id) := by
  intro q name hq
  cases q with
  | depend owner n =>
    cases owner with
    | none => cases hq
    | some h =>
      simp only [Request.dependency?] at hq
      split at hq
      · next hfound => exact ⟨h, rfl, hfound.1⟩
      · cases hq
  | _ => cases hq

theorem adds_super (classes : ClassTable) (symbols : Table SymbolId) (id : SymbolId) :
    Adds (·.find classes symbols) id (·.super? classes id) := by
  intro q name hq
  cases q with
  | super n type =>
    simp only [Request.super?] at hq
    split at hq
    · next hfound => exact ⟨.ofClass n, rfl, hfound⟩
    · cases hq
  | _ => cases hq

section Congr

variable {classes classes' : ClassTable} {symbols symbols' : Table SymbolId} {id id' : SymbolId}
  (hsame : ∀ g : Handle, g.find classes' symbols' = some id' ↔ g.find classes symbols = some id)
include hsame

theorem dependency?_congr :
    (fun q : Request => q.dependency? classes' symbols' id') =
      (·.dependency? classes symbols id) := by
  funext q
  cases q with
  | depend owner name =>
    cases owner with
    | none => rfl
    | some g => simp only [Request.dependency?, hsame]
  | _ => rfl

theorem super?_congr : (fun q : Request => q.super? classes' id') = (·.super? classes id) := by
  funext q
  cases q with
  | super name type =>
    have hname : classes'.get? name = some id' ↔ classes.get? name = some id :=
      hsame (.ofClass name)
    simp only [Request.super?, hname]
  | _ => rfl

end Congr

/-- The requests of a file are about its own symbols and names. -/
def Collection.Local (x : Collection) : Prop :=
  ∀ q ∈ x.script, q.Within (fun name => x.after.symbols.contains name = true) (importNames x.tree)

theorem Collection.Made.local {parse : Parser} {fs : Files} (h : x.Made parse fs)
    (htidy : Tidy x.tree) :
    x.Local :=
  script_collected h.collected htidy

/-- A file that adds nothing. -/
def Collection.Silent (f : Request → Option String) (x : Collection) : Prop :=
  ∀ q ∈ x.script, f q = none

theorem Collection.Silent.filterMap_granted (h : x.Silent f) (v : Names) :
    (granted v x.script).filterMap f = [] :=
  List.filterMap_eq_nil_iff.mpr fun q hq => h q (granted_subset v _ hq)

/-- A file adds something to symbols of its own names only. -/
theorem Collection.Local.contains_subject (h : y.Local) {q : Request} (hq : q ∈ y.script)
    (hg : q.subject? = some g) :
    y.after.symbols.contains g.name = true := by
  have hwithin := h q hq
  cases q with
  | depend owner n => exact hwithin.1 g hg
  | super n type =>
    cases hg
    exact hwithin
  | _ => cases hg

/-- A file adds nothing to a symbol of a name that it does not declare. -/
theorem Collection.Local.silent (h : y.Local) {id : Nat} (hf : Adds (numberOf · k xs) id f)
    (hxs : ∀ x ∈ xs, x.Whole)
    (hi : symbolIn k xs id = some i) (hname : y.after.symbols.contains i.fullName = false) :
    y.Silent f := by
  intro q hq
  by_contra hsome
  obtain ⟨name, hadded⟩ := Option.ne_none_iff_exists'.mp hsome
  obtain ⟨g, hg, hfound⟩ := hf q name hadded
  obtain ⟨i', hi', hfull⟩ := symbolIn_numberOf hxs hfound
  cases hi.symm.trans hi'
  have hown := h.contains_subject hq hg
  rw [← hfull, hname] at hown
  cases hown

/-- Of two files that share no name, one adds nothing to a symbol. -/
theorem Collection.Apart.silent (h : x.Apart y) (hx : x.Local) (hy : y.Local) {id : Nat}
    (hf : Adds (numberOf · k xs) id f) (hxs : ∀ x ∈ xs, x.Whole) (hi : symbolIn k xs id = some i) :
    x.Silent f ∨ y.Silent f := by
  cases hname : x.after.symbols.contains i.fullName with
  | true => exact .inr (hy.silent hf hxs hi (h _ hname))
  | false => exact .inl (hx.silent hf hxs hi hname)

/-! ## Symbols of a profile -/

/-- What a symbol is after a profile: what it was when it was collected, with what the granted
requests add. -/
theorem Profiled.get? {s : Scene Profiler} (h : Profiled r xs s) {id : Nat} (hle : r.size ≤ id)
    (hi : symbolIn r.size xs id = some i) :
    s.shared.registry.get? id = some { i with
      hierarchy := i.hierarchy ++ (fulfilled xs).filterMap (·.super? (classesOf r xs) id)
      dependency := i.dependency ++ (fulfilled xs).filterMap
        (·.dependency? (classesOf r xs) (symbolsOf r xs) id) } :=
  h.done.get? ((get?_stack xs hle).trans hi)

end Coupling.Project
