import Coupling.Proofs.Profiling
import Coupling.Proofs.Requests

/-!
# Which requests are granted

Whether a request of a reading is granted depends on names alone: on the classes and symbols that
are known, to which imports add (`Request.passes`, `Names.after`). So the requests that a reading
gets through with can be told from its list and the names (`granted`), and they only grow if more
names are known (`granted_prefix`).

What granted requests have done is said once (`Performed`): what each symbol has come to depend on
and to inherit from, which symbols are new, and how far the counts have grown. `carryOut_performed`
says it of every reading.
-/

namespace Coupling.Project

open Java (NodeInfo)

/-! ## Names that are known -/

/-- The names of the classes and of the symbols that are known. A class is a symbol. -/
structure Names where
  classes : String → Bool
  symbols : String → Bool
  symbol_of_class : ∀ name, classes name = true → symbols name = true

namespace Names

/-- Whether a symbol is found. -/
def has (v : Names) : Handle → Bool
  | .ofClass name => v.classes name
  | .ofSymbol name => v.symbols name

/-- The names that are known with one symbol more. -/
def learn (v : Names) (name : String) : Names where
  classes := v.classes
  symbols n := v.symbols n || n == name
  symbol_of_class n h := by rw [v.symbol_of_class n h, Bool.true_or]

/-- Every name that is known here is known there. -/
structure Le (v v' : Names) : Prop where
  classes : ∀ name, v.classes name = true → v'.classes name = true
  symbols : ∀ name, v.symbols name = true → v'.symbols name = true

instance : LE Names := ⟨Le⟩

theorem le_refl (v : Names) : v ≤ v := ⟨fun _ h => h, fun _ h => h⟩

theorem le_trans {v v' v'' : Names} (h : v ≤ v') (h' : v' ≤ v'') : v ≤ v'' :=
  ⟨fun n hn => h'.classes n (h.classes n hn), fun n hn => h'.symbols n (h.symbols n hn)⟩

theorem le_learn (v : Names) (name : String) : v ≤ v.learn name :=
  ⟨fun _ h => h, fun n h => by simp [learn, h]⟩

theorem learn_mono {v v' : Names} (h : v ≤ v') (name : String) : v.learn name ≤ v'.learn name := by
  refine ⟨h.classes, fun n hn => ?_⟩
  simp only [learn, Bool.or_eq_true, beq_iff_eq] at hn ⊢
  exact hn.imp (h.symbols n) id

/-- What is no symbol is no class. -/
theorem classes_eq_false {v : Names} {name : String} (h : v.symbols name = false) :
    v.classes name = false := by
  cases hclass : v.classes name with
  | false => rfl
  | true =>
    rw [v.symbol_of_class name hclass] at h
    cases h

theorem has_mono {v v' : Names} (h : v ≤ v') {k : Handle} (hk : v.has k = true) :
    v'.has k = true := by
  cases k with
  | ofClass name => exact h.classes name hk
  | ofSymbol name => exact h.symbols name hk

end Names

namespace Request

/-- Whether a request is granted. -/
def passes (v : Names) : Request → Bool
  | .fail _ => false
  | .enter h => v.has h
  | .import name info => v.symbols name || info.stop.isSome
  | .super _ _ => true
  | .depend owner name => isPredefined name || v.symbols name && owner.any v.has
  | .interact _ _ => true

/-- The names that are known after a request. -/
def after (v : Names) : Request → Names
  | .import name _ => v.learn name
  | _ => v

theorem passes_mono {v v' : Names} (h : v ≤ v') {r : Request} (hr : r.passes v = true) :
    r.passes v' = true := by
  cases r with
  | fail fault => exact hr
  | enter k => exact Names.has_mono h hr
  | «import» name info =>
    simp only [passes, Bool.or_eq_true] at hr ⊢
    exact hr.imp (h.symbols name) id
  | super name type => rfl
  | depend owner name =>
    simp only [passes, Bool.or_eq_true, Bool.and_eq_true, Option.any_eq_true] at hr ⊢
    refine hr.imp id fun ⟨hname, k, hk, hfound⟩ =>
      ⟨h.symbols name hname, k, hk, Names.has_mono h hfound⟩
  | interact source target => rfl

theorem le_after (v : Names) (r : Request) : v ≤ r.after v := by
  cases r with
  | «import» name info => exact v.le_learn name
  | _ => exact v.le_refl

theorem after_mono {v v' : Names} (h : v ≤ v') (r : Request) : r.after v ≤ r.after v' := by
  cases r with
  | «import» name info => exact Names.learn_mono h name
  | _ => exact h

end Request

/-- The names that are known after requests. -/
def Names.after (v : Names) (rs : List Request) : Names := rs.foldl (fun v r => r.after v) v

/-- The requests that are granted: those before the first that is refused. -/
def granted (v : Names) : List Request → List Request
  | [] => []
  | r :: rs => if r.passes v then r :: granted (r.after v) rs else []

theorem Names.le_after (v : Names) (rs : List Request) : v ≤ v.after rs := by
  induction rs generalizing v with
  | nil => exact v.le_refl
  | cons r rs ih => exact Names.le_trans (r.le_after v) (ih (r.after v))

theorem Names.after_mono {v v' : Names} (h : v ≤ v') {rs rs' : List Request} (hrs : rs <+: rs') :
    v.after rs ≤ v'.after rs' := by
  obtain ⟨more, rfl⟩ := hrs
  rw [Names.after, Names.after, List.foldl_append]
  refine Names.le_trans ?_ (Names.le_after _ more)
  induction rs generalizing v v' with
  | nil => exact h
  | cons r rs ih => exact ih (Request.after_mono h r)

/-- What is granted is granted also if more names are known. -/
theorem granted_prefix {v v' : Names} (h : v ≤ v') (rs : List Request) :
    granted v rs <+: granted v' rs := by
  induction rs generalizing v v' with
  | nil => exact List.prefix_refl _
  | cons r rs ih =>
    rw [granted, granted]
    split
    · next hr =>
      rw [if_pos (Request.passes_mono h hr)]
      exact List.cons_prefix_cons.mpr ⟨rfl, ih (Request.after_mono h r)⟩
    · exact List.nil_prefix

theorem granted_subset (v : Names) (rs : List Request) : granted v rs ⊆ rs := by
  induction rs generalizing v with
  | nil => exact List.Subset.refl _
  | cons r rs ih =>
    rw [granted]
    split
    · exact List.cons_subset_cons r (ih _)
    · exact List.nil_subset _

@[simp] theorem Names.classes_after (v : Names) (rs : List Request) :
    (v.after rs).classes = v.classes := by
  induction rs generalizing v with
  | nil => rfl
  | cons r rs ih =>
    refine (ih (r.after v)).trans ?_
    cases r <;> rfl

/-- After requests, the imports among them are known. -/
theorem Names.symbols_after (v : Names) (rs : List Request) (name : String) :
    (v.after rs).symbols name = true ↔ v.symbols name = true ∨ ∃ info, .import name info ∈ rs := by
  induction rs generalizing v with
  | nil => simp [Names.after]
  | cons r rs ih =>
    refine (ih (r.after v)).trans ?_
    cases r with
    | «import» name' info =>
      simp only [Request.after, Names.learn, Bool.or_eq_true, beq_iff_eq, List.mem_cons,
        Request.import.injEq]
      constructor
      · rintro ((h | rfl) | ⟨i, h⟩)
        · exact .inl h
        · exact .inr ⟨info, .inl ⟨rfl, rfl⟩⟩
        · exact .inr ⟨i, .inr h⟩
      · rintro (h | ⟨i, ⟨rfl, -⟩ | h⟩)
        · exact .inl (.inl h)
        · exact .inl (.inr rfl)
        · exact .inr ⟨i, h⟩
    | _ => simp [Request.after]

/-- What is granted depends only on which requests pass. -/
theorem granted_congr {v v' : Names} (rs : List Request)
    (h : ∀ pre r post, rs = pre ++ r :: post → r.passes (v.after pre) = r.passes (v'.after pre)) :
    granted v rs = granted v' rs := by
  induction rs generalizing v v' with
  | nil => rfl
  | cons r rs ih =>
    have hfirst : r.passes v = r.passes v' := h [] r rs rfl
    rw [granted, granted, hfirst, ih fun pre r' post hrs => h (r :: pre) r' post (by rw [hrs]; rfl)]

/-! ## What granted requests have done -/

/-- What a request adds to what a symbol depends on. -/
def Request.dependency? (classes : ClassTable) (symbols : Table SymbolId) (id : SymbolId) :
    Request → Option String
  | .depend (some h) name =>
    if h.find classes symbols = some id ∧ isPredefined name = false then some name else none
  | _ => none

/-- What a request adds to the supertypes of a symbol. -/
def Request.super? (classes : ClassTable) (id : SymbolId) : Request → Option String
  | .super name type => if classes.get? name = some id then some type else none
  | _ => none

/-- How often requests count an interaction of two classes. -/
def tally (classes : ClassTable) (p q : String) (rs : List Request) : Nat :=
  if p ≠ q ∧ classes.contains p = true ∧ classes.contains q = true then rs.count (.interact p q)
    else 0

theorem tally_append (classes : ClassTable) (p q : String) (rs rs' : List Request) :
    tally classes p q (rs ++ rs') = tally classes p q rs + tally classes p q rs' := by
  unfold tally
  split
  · exact List.count_append
  · rfl

theorem tally_of_ne {classes : ClassTable} {p q : String} {r : Request} (h : r ≠ .interact p q) :
    tally classes p q [r] = 0 := by
  unfold tally
  split
  · exact List.count_eq_zero.mpr fun hmem => h (List.mem_singleton.mp hmem).symm
  · rfl

theorem tally_uncounted {classes : ClassTable} {p q : String}
    (h : ¬ (p ≠ q ∧ classes.contains p = true ∧ classes.contains q = true)) (p' q' : String) :
    tally classes p' q' [.interact p q] = 0 := by
  by_cases hsame : p' = p ∧ q' = q
  · obtain ⟨rfl, rfl⟩ := hsame
    rw [tally, if_neg h]
  · exact tally_of_ne fun heq => by
      cases heq
      exact hsame ⟨rfl, rfl⟩

/-- What was done when requests were granted. -/
structure Performed (classes : ClassTable) (n : Numbering) (es : List Request) (a a' : Analysis) :
    Prop where
  later : a.registry.Later a'.registry
  dependency : ∀ id, id < a.registry.size →
    a'.registry.dependency id = a.registry.dependency id ++
      es.filterMap (·.dependency? classes a.symbols id)
  hierarchy : ∀ id, id < a.registry.size →
    a'.registry.hierarchy id = a.registry.hierarchy id ++ es.filterMap (·.super? classes id)
  kept : ∀ name id, a.symbols.get? name = some id → a'.symbols.get? name = some id
  fresh : ∀ name id, a'.symbols.get? name = some id → a.symbols.get? name = some id ∨
    a.registry.size ≤ id ∧ ∃ i, a'.registry.get? id = some i ∧ i.kind = .import
  counts : ∀ p q, cell n a'.matrix p q = (cell n a.matrix p q).map
    (· + Int64.ofNat (tally classes p q es))

namespace Performed

variable {classes : ClassTable} {n : Numbering} {es es' : List Request} {a a' a'' : Analysis}

theorem refl (a : Analysis) : Performed classes n [] a a where
  later := .refl _
  dependency id _ := by simp
  hierarchy id _ := by simp
  kept _ _ h := h
  fresh _ _ h := .inl h
  counts p q := by cases cell n a.matrix p q <;> simp [tally]

/-- A request that changes nothing. -/
theorem idle {r : Request} (hdep : ∀ id, r.dependency? classes a.symbols id = none)
    (hsuper : ∀ id, r.super? classes id = none) (htally : ∀ p q, tally classes p q [r] = 0) :
    Performed classes n [r] a a where
  later := .refl _
  dependency id _ := by simp [hdep]
  hierarchy id _ := by simp [hsuper]
  kept _ _ h := h
  fresh _ _ h := .inl h
  counts p q := by cases cell n a.matrix p q <;> simp [htally]

variable {k : Handle} {id : SymbolId} {name : String} {i : Symbol}

/-- A symbol has come to depend on a name. -/
theorem onDependency (hid : k.find classes a.symbols = some id)
    (hname : isPredefined name = false) :
    Performed classes n [.depend (some k) name] a
      { a with registry := a.registry.addDependency id name } where
  later := .addDependency _ _ _
  dependency id' hid' := by
    have hfound : (id = id' ∧ id' < a.registry.size) ↔ k.find classes a.symbols = some id' := by
      simp [hid, hid']
    rw [Registry.dependency_addDependency, List.filterMap_cons, Request.dependency?]
    by_cases h : k.find classes a.symbols = some id'
    · rw [if_pos (hfound.mpr h), if_pos ⟨h, hname⟩]
      rfl
    · rw [if_neg (fun h' => h (hfound.mp h')), if_neg (fun h' => h h'.1)]
      rfl
  hierarchy id' _ := by simp [Request.super?]
  kept _ _ h := h
  fresh _ _ h := .inl h
  counts p q := by cases cell n a.matrix p q <;> simp [tally_of_ne]

/-- A class has a supertype more. -/
theorem onSuper {type : String} (hid : classes.get? name = some id) :
    Performed classes n [.super name type] a { a with registry := a.registry.addSuper id type }
      where
  later := .addSuper _ _ _
  dependency id' _ := by simp [Request.dependency?]
  hierarchy id' hid' := by
    have hfound : (id = id' ∧ id' < a.registry.size) ↔ classes.get? name = some id' := by
      simp [hid, hid']
    rw [Registry.hierarchy_addSuper, List.filterMap_cons, Request.super?]
    by_cases h : classes.get? name = some id'
    · rw [if_pos (hfound.mpr h), if_pos h]
      rfl
    · rw [if_neg (fun h' => h (hfound.mp h')), if_neg h]
      rfl
  kept _ _ h := h
  fresh _ _ h := .inl h
  counts p q := by cases cell n a.matrix p q <;> simp [tally_of_ne]

/-- An import has become a symbol. -/
theorem onImport (info : NodeInfo) (hi : i.kind = .import)
    (hnew : a.symbols.contains i.fullName = false) :
    Performed classes n [.import i.fullName info] a (Analyze.withSymbol i a) where
  later := .add _ _
  dependency id hid := by
    simp [Analyze.withSymbol, Registry.dependency, Registry.get?_add_of_lt i hid,
      Request.dependency?]
  hierarchy id hid := by simp [Analyze.withSymbol, Registry.hierarchy,
    Registry.get?_add_of_lt i hid, Request.super?]
  kept name id hid := by
    have hne : name ≠ i.fullName := by
      rintro rfl
      rw [Table.contains, hid] at hnew
      cases hnew
    rw [Analyze.withSymbol, Table.get?_put, if_neg hne]
    exact hid
  fresh name id hid := by
    rw [Analyze.withSymbol, Table.get?_put] at hid
    split at hid
    · cases hid
      exact .inr ⟨Nat.le_refl _, i, Registry.get?_add_self _ i, hi⟩
    · exact .inl hid
  counts p q := by cases h : cell n a.matrix p q <;> simp [tally_of_ne, Analyze.withSymbol, h]

/-- An interaction of two classes was counted. -/
theorem onCount {m : Matrix} {p q : String} (hm : countInteraction n a.matrix p q = .ok m)
    (hne : p ≠ q) (hp : classes.contains p = true) (hq : classes.contains q = true) :
    Performed classes n [.interact p q] a { a with matrix := some m } where
  later := .refl _
  dependency id _ := by simp [Request.dependency?]
  hierarchy id _ := by simp [Request.super?]
  kept _ _ h := h
  fresh _ _ h := .inl h
  counts p' q' := by
    rw [cell_countInteraction hm]
    by_cases h : p' = p ∧ q' = q
    · obtain ⟨rfl, rfl⟩ := h
      rw [if_pos ⟨rfl, rfl⟩]
      simp [tally, hne, hp, hq]
    · have hother : (Request.interact p q) ≠ .interact p' q' := fun heq => by
        cases heq
        exact h ⟨rfl, rfl⟩
      rw [if_neg h, tally_of_ne hother]
      cases cell n a.matrix p' q' <;> simp

variable (h : Performed classes n es a a')
include h

/-- A symbol that was there is found after requests just where it was found before. -/
theorem find_iff (hid : id < a.registry.size) :
    k.find classes a'.symbols = some id ↔ k.find classes a.symbols = some id := by
  cases k with
  | ofClass name => exact Iff.rfl
  | ofSymbol name =>
    refine ⟨fun hfind => ?_, h.kept name id⟩
    rcases h.fresh name id hfind with hold | ⟨hnew, -⟩
    · exact hold
    · exact absurd hid (Nat.not_lt.mpr hnew)

/-- What a symbol is after requests: what it was, with what they add to it. -/
theorem get? (hi : a.registry.get? id = some i) :
    a'.registry.get? id = some { i with
      hierarchy := i.hierarchy ++ es.filterMap (·.super? classes id)
      dependency := i.dependency ++ es.filterMap (·.dependency? classes a.symbols id) } := by
  have hlt := Registry.lt_size_of_get? hi
  obtain ⟨i', hi', hsame⟩ := h.later id i hi
  have hdep : i'.dependency = _ := (Registry.dependency_of_get? hi').symm.trans
    (h.dependency id hlt)
  have hsuper : i'.hierarchy = _ := (Registry.hierarchy_of_get? hi').symm.trans (h.hierarchy id hlt)
  rw [Registry.dependency_of_get? hi] at hdep
  rw [Registry.hierarchy_of_get? hi] at hsuper
  refine hi'.trans (congrArg some ?_)
  calc i' = { i'.identity with hierarchy := i'.hierarchy, dependency := i'.dependency } := rfl
    _ = _ := by rw [hsame, hdep, hsuper]; rfl

theorem trans (h' : Performed classes n es' a' a'') :
    Performed classes n (es ++ es') a a'' where
  later := h.later.trans h'.later
  dependency id hid := by
    have hid' : id < a'.registry.size := Nat.lt_of_lt_of_le hid h.later.size_le
    have hsame : (fun r : Request => r.dependency? classes a'.symbols id) =
        (·.dependency? classes a.symbols id) := by
      funext r
      cases r with
      | depend owner name =>
        cases owner with
        | none => rfl
        | some k => simp only [Request.dependency?, h.find_iff hid]
      | _ => rfl
    rw [h'.dependency id hid', h.dependency id hid, hsame, List.filterMap_append, List.append_assoc]
  hierarchy id hid := by
    have hid' : id < a'.registry.size := Nat.lt_of_lt_of_le hid h.later.size_le
    rw [h'.hierarchy id hid', h.hierarchy id hid, List.filterMap_append, List.append_assoc]
  kept name id hid := h'.kept name id (h.kept name id hid)
  fresh name id hid := by
    rcases h'.fresh name id hid with hold | ⟨hsize, i, hi, hkind⟩
    · rcases h.fresh name id hold with hold | ⟨hsize, i, hi, hkind⟩
      · exact .inl hold
      · obtain ⟨i', hi', hsame⟩ := h'.later id i hi
        have hkind' := congrArg Symbol.kind hsame
        exact .inr ⟨hsize, i', hi', hkind'.trans hkind⟩
    · exact .inr ⟨Nat.le_trans h.later.size_le hsize, i, hi, hkind⟩
  counts p q := by
    rw [h'.counts p q, h.counts p q, Option.map_map, tally_append]
    congr 1
    funext v
    rw [Function.comp_apply, Int64.ofNat_add, Int64.add_assoc]

end Performed

/-! ## Readings -/

namespace Analyze

variable {c : Setting} {v : Names} {a a' : Analysis} {info : NodeInfo} {name : String} {r : Request}
  {rs : List Request}

theorem symbolAt_import (c : Setting) (name : String) {last : Java.Token}
    (hlast : info.stop = some last) :
    ∃ i, IsImport i ∧ i.fullName = name ∧
      (symbolAt c.file c.source .import (Text.afterLast name '.') name info : Except Fault Symbol) =
        .ok i := by
  unfold symbolAt
  rw [hlast]
  exact ⟨_, ⟨rfl, rfl, rfl⟩, rfl, rfl⟩

/-- An import that is granted is known already or becomes a symbol. -/
theorem performed_import (h : grant c a (.import name info) = .ok a') :
    Performed c.classes c.numbering [.import name info] a a' := by
  rw [grant] at h
  split at h
  · next hnew =>
    rw [Bool.and_eq_true, Bool.not_eq_true', Bool.not_eq_true'] at hnew
    cases hlast : info.stop with
    | none =>
      rw [symbolAt, hlast] at h
      cases h
    | some last =>
      obtain ⟨i, hi, rfl, hadded⟩ := symbolAt_import c name hlast
      rw [hadded] at h
      cases h
      exact .onImport info hi.kind hnew.2
  · cases h
    exact .idle (fun _ => rfl) (fun _ => rfl) fun p q => tally_of_ne (by simp)

/-- A dependency that is granted is predefined or noted. -/
theorem performed_depend {owner : Option Handle} (h : grant c a (.depend owner name) = .ok a') :
    Performed c.classes c.numbering [.depend owner name] a a' := by
  rw [grant] at h
  split at h
  · next hpre =>
    cases h
    refine .idle (fun id => ?_) (fun _ => rfl) fun p q => tally_of_ne (by simp)
    cases owner with
    | none => rfl
    | some k => simp [Request.dependency?, hpre]
  · next hpre =>
    split at h
    · split at h
      · next id hid =>
        obtain ⟨k, rfl, hk⟩ := Option.bind_eq_some_iff.mp hid
        cases h
        exact .onDependency hk (Bool.eq_false_iff.mpr hpre)
      · cases h
    · cases h

/-- An interaction that is granted is counted, if it is one of two classes. -/
theorem performed_interact {p q : String} (h : grant c a (.interact p q) = .ok a') :
    Performed c.classes c.numbering [.interact p q] a a' := by
  have hidle (hno : ¬ (p ≠ q ∧ Table.contains c.classes p = true ∧
      Table.contains c.classes q = true)) :
      Performed c.classes c.numbering [.interact p q] a a :=
    .idle (fun _ => rfl) (fun _ => rfl) (tally_uncounted hno)
  rw [grant] at h
  split at h
  · next heq =>
    cases h
    exact hidle fun hno => hno.1 heq
  · next hne =>
    split at h
    · next hboth =>
      rw [Bool.and_eq_true] at hboth
      cases hm : countInteraction c.numbering a.matrix p q with
      | error fault =>
        rw [hm] at h
        cases h
      | ok m =>
        rw [hm] at h
        cases h
        exact .onCount hm hne hboth.1 hboth.2
    · next hboth =>
      cases h
      exact hidle fun hno => hboth (by rw [hno.2.1, hno.2.2]; rfl)

/-- What a granted request has done. -/
theorem performed_of_grant (h : grant c a r = .ok a') :
    Performed c.classes c.numbering [r] a a' := by
  cases r with
  | fail fault => cases h
  | enter k =>
    rw [grant] at h
    split at h
    · cases h
      exact .idle (fun _ => rfl) (fun _ => rfl) fun p q => tally_of_ne (by simp)
    · cases h
  | «import» name info => exact performed_import h
  | super name type =>
    rw [grant] at h
    split at h
    · next id hid =>
      cases h
      exact .onSuper hid
    · next hnone =>
      cases h
      refine .idle (fun _ => rfl) (fun id => ?_) fun p q => tally_of_ne (by simp)
      rw [Request.super?, hnone, if_neg (by simp)]
  | depend owner name => exact performed_depend h
  | interact p q => exact performed_interact h

/-- No reading takes cells away. -/
theorem stable_ample (c : Setting) (there : Bool) :
    Stable c fun a => Ample c.numbering there a.matrix where
  onDependency _ _ _ h _ _ := h
  onSuper _ _ _ h := h
  onCount a m p q h hm := by
    obtain ⟨m₀, i, j, hm₀, -⟩ := countInteraction_eq_ok hm
    rw [hm₀] at hm
    refine ⟨by rw [← h.isSome, hm₀]; rfl, fun m' hm' => ?_⟩
    cases hm'
    exact (h.covers m₀ hm₀).countInteraction hm
  onImport _ _ h _ _ _ := h

/-- What a reading can rely on: the names are those that are known, a symbol stands under its name,
and every class has a place in the matrix. -/
structure Ready (c : Setting) (v : Names) (a : Analysis) : Prop where
  classes : ∀ name, v.classes name = Table.contains c.classes name
  symbols : ∀ name, v.symbols name = a.symbols.contains name
  consistent : Consistent c a
  numbered : ∀ name, Table.contains c.classes name = true → name ∈ c.numbering.names
  ample : Ample c.numbering true a.matrix

namespace Ready

theorem has_eq (h : Ready c v a) (k : Handle) : v.has k = (k.find c.classes a.symbols).isSome := by
  cases k with
  | ofClass name => exact h.classes name
  | ofSymbol name => exact h.symbols name

/-- The interactions of classes can be counted. -/
theorem exists_count (h : Ready c v a) {p q : String} (hp : Table.contains c.classes p = true)
    (hq : Table.contains c.classes q = true) :
    ∃ m, countInteraction c.numbering a.matrix p q = .ok m := by
  obtain ⟨m, hm⟩ := Option.isSome_iff_exists.mp h.ample.isSome
  rw [hm]
  exact exists_countInteraction (h.ample.covers m hm) (h.numbered p hp) (h.numbered q hq)

end Ready

section

variable (h : Ready c v a)
include h

theorem Ready.of_registry {r : Registry} (hr : a.registry.Later r) :
    Ready c v { a with registry := r } :=
  ⟨h.classes, h.symbols, ⟨h.consistent.classes.later hr, h.consistent.symbols.later hr⟩,
    h.numbered, h.ample⟩

/-- An import that is known already changes nothing. -/
theorem Ready.learn_known (hname : v.symbols name = true) : Ready c (v.learn name) a := by
  refine ⟨h.classes, fun n => ?_, h.consistent, h.numbered, h.ample⟩
  show (v.symbols n || n == name) = _
  by_cases hn : n = name
  · rw [hn, hname, Bool.true_or, ← h.symbols, hname]
  · rw [beq_false_of_ne hn, Bool.or_false, h.symbols]

/-- An import that was not known is a symbol now. -/
theorem Ready.learn_new {i : Symbol} (hi : IsImport i) (hnew : v.symbols i.fullName = false) :
    Ready c (v.learn i.fullName) (withSymbol i a) := by
  have hclass : Table.contains c.classes i.fullName = false := by
    rw [← h.classes, Names.classes_eq_false hnew]
  rw [h.symbols] at hnew
  refine ⟨h.classes, fun n => ?_, (stable_consistent c).onImport a i h.consistent hi hclass hnew,
    h.numbered, h.ample⟩
  show (v.symbols n || n == i.fullName) = (a.symbols.put i.fullName a.registry.size).contains n
  rw [Table.contains_put, h.symbols, Bool.or_comm]
  rfl

/-- What comes of an import: a symbol, if the name is new. -/
theorem grant_import (hr : (Request.import name info).passes v = true) :
    ∃ a', grant c a (.import name info) = .ok a' ∧ Ready c (v.learn name) a' := by
  cases hknown : v.symbols name with
  | true =>
    refine ⟨a, ?_, h.learn_known hknown⟩
    rw [grant, ← h.symbols name, hknown, Bool.not_true, Bool.and_false, if_neg Bool.false_ne_true]
  | false =>
    rw [Request.passes, hknown, Bool.false_or] at hr
    obtain ⟨last, hlast⟩ := Option.isSome_iff_exists.mp hr
    obtain ⟨i, hi, rfl, hadded⟩ := symbolAt_import c name hlast
    refine ⟨withSymbol i a, ?_, h.learn_new hi hknown⟩
    rw [grant, ← h.symbols, ← h.classes, hknown, Names.classes_eq_false hknown, hadded]
    rfl

/-- What comes of a note: a dependency, if the name is not predefined. -/
theorem grant_depend {owner : Option Handle} (hr : (Request.depend owner name).passes v = true) :
    ∃ a', grant c a (.depend owner name) = .ok a' ∧ Ready c v a' := by
  rw [grant]
  cases hpre : isPredefined name with
  | true => exact ⟨a, rfl, h⟩
  | false =>
    simp only [Request.passes, hpre, Bool.false_or, Bool.and_eq_true, Option.any_eq_true] at hr
    obtain ⟨hname, k, rfl, hk⟩ := hr
    rw [h.has_eq] at hk
    obtain ⟨id, hid⟩ := Option.isSome_iff_exists.mp hk
    rw [h.symbols] at hname
    refine ⟨_, ?_, h.of_registry (.addDependency _ id name)⟩
    simp [hname, hid]

/-- What comes of an interaction: one more in a cell, if it is between two classes. -/
theorem grant_interact (p q : String) : ∃ a', grant c a (.interact p q) = .ok a' ∧
    Ready c v a' := by
  rw [grant]
  by_cases hcounted : p ≠ q ∧ Table.contains c.classes p = true ∧ Table.contains c.classes q = true
  · obtain ⟨hne, hp, hq⟩ := hcounted
    obtain ⟨m, hm⟩ := h.exists_count hp hq
    have hample := (stable_ample c true).onCount a m p q h.ample hm
    refine ⟨{ a with matrix := some m }, ?_, ?_⟩
    · rw [if_neg hne, hp, hq, hm]
      rfl
    · exact ⟨h.classes, h.symbols, ⟨h.consistent.classes, h.consistent.symbols⟩, h.numbered, hample⟩
  · refine ⟨a, ?_, h⟩
    split
    · rfl
    · next hne =>
      rw [if_neg fun hboth => hcounted ⟨hne, by simpa using hboth⟩]

/-- What comes of a request that is granted. -/
theorem grant_of_passes (hr : r.passes v = true) :
    ∃ a', grant c a r = .ok a' ∧ Ready c (r.after v) a' := by
  cases r with
  | fail fault => cases hr
  | enter k =>
    rw [Request.passes, h.has_eq] at hr
    obtain ⟨id, hid⟩ := Option.isSome_iff_exists.mp hr
    exact ⟨a, by rw [grant, hid], h⟩
  | «import» name info => exact grant_import h hr
  | super name type =>
    rw [grant]
    cases hid : Table.get? c.classes name with
    | none => exact ⟨a, rfl, h⟩
    | some id => exact ⟨_, rfl, h.of_registry (.addSuper _ _ _)⟩
  | depend owner name => exact grant_depend h hr
  | interact p q => exact grant_interact h p q

/-- A request that does not pass is refused. -/
theorem grant_of_not_passes (hr : r.passes v = false) : ∃ fault, grant c a r = .error fault := by
  cases r with
  | fail fault => exact ⟨fault, rfl⟩
  | enter k =>
    rw [Request.passes, h.has_eq, Option.isSome_eq_false_iff, Option.isNone_iff_eq_none] at hr
    exact ⟨.noKey k.name, by rw [grant, hr]⟩
  | «import» name info =>
    obtain ⟨hname, hstop⟩ := Bool.or_eq_false_iff.mp hr
    rw [Option.isSome_eq_false_iff, Option.isNone_iff_eq_none] at hstop
    refine ⟨.absent "line", ?_⟩
    rw [grant, ← h.symbols, ← h.classes, hname, Names.classes_eq_false hname, symbolAt, hstop]
    rfl
  | super name type => cases hr
  | depend owner name =>
    rw [Request.passes, Bool.or_eq_false_iff] at hr
    rw [grant, if_neg (by rw [hr.1]; exact Bool.false_ne_true)]
    by_cases hname : a.symbols.contains name = true
    · rw [h.symbols, hname, Bool.true_and] at hr
      have hnone : owner.bind (·.find c.classes a.symbols) = none := by
        cases owner with
        | none => rfl
        | some k =>
          have hk := hr.2
          rwa [Option.any_some, h.has_eq, Option.isSome_eq_false_iff, Option.isNone_iff_eq_none]
            at hk
      exact ⟨.absent "dependency", by rw [if_pos hname, hnone]⟩
    · exact ⟨.unknownDependency name, by rw [if_neg hname]⟩
  | interact source target => cases hr

/-- **What a reading does.** It gets through with the requests that are granted, and no further. -/
theorem carryOut_performed (rs : List Request) :
    Performed c.classes c.numbering (granted v rs) a (carryOut c rs a).2 ∧
      Ready c (v.after (granted v rs)) (carryOut c rs a).2 ∧
      ((carryOut c rs a).1 = .ok () ↔ granted v rs = rs) := by
  induction rs generalizing v a with
  | nil => exact ⟨.refl a, h, by simp [carryOut, granted]⟩
  | cons r rs ih =>
    rw [carryOut, granted]
    cases hr : r.passes v with
    | true =>
      obtain ⟨a', hgrant, hready⟩ := grant_of_passes h hr
      obtain ⟨hrest, hready', hend⟩ := ih hready
      rw [hgrant, if_pos rfl]
      refine ⟨(performed_of_grant hgrant).trans hrest, hready', hend.trans ?_⟩
      rw [List.cons_inj_right]
    | false =>
      obtain ⟨fault, hgrant⟩ := grant_of_not_passes h hr
      rw [hgrant, if_neg Bool.false_ne_true]
      exact ⟨.refl a, h, by simp⟩

end

/-- Requests that are all granted have all been carried out. -/
theorem performed_of_carryOut (h : carryOut c rs a = (.ok (), a')) :
    Performed c.classes c.numbering rs a a' := by
  induction rs generalizing a with
  | nil =>
    cases h
    exact .refl _
  | cons r rs ih =>
    rw [carryOut] at h
    cases hr : grant c a r with
    | error f =>
      rw [hr] at h
      cases h
    | ok a₁ =>
      rw [hr] at h
      exact (performed_of_grant hr).trans (ih h)

/-- Each of them was granted at some point. -/
theorem exists_grant (h : carryOut c rs a = (.ok (), a')) (hr : r ∈ rs) :
    ∃ a₁ a₂, grant c a₁ r = .ok a₂ := by
  induction rs generalizing a with
  | nil => cases hr
  | cons r' rs ih =>
    rw [carryOut] at h
    cases hgrant : grant c a r' with
    | error f =>
      rw [hgrant] at h
      cases h
    | ok a₁ =>
      rw [hgrant] at h
      rcases List.mem_cons.mp hr with rfl | hr
      · exact ⟨a, a₁, hgrant⟩
      · exact ih h hr

theorem unbroken_of_carryOut (h : carryOut c rs a = (.ok (), a')) : Unbroken rs := by
  intro fault hmem
  obtain ⟨a₁, a₂, hgrant⟩ := exists_grant h hmem
  cases hgrant

/-- Requests that a fault ends are those that were granted, the one that was refused, and the
rest. -/
theorem carryOut_refused {fault : Fault} (h : carryOut c rs a = (.error fault, a')) :
    ∃ done refused rest, rs = done ++ refused :: rest ∧ Performed c.classes c.numbering done a a' ∧
      grant c a' refused = .error fault := by
  induction rs generalizing a with
  | nil => cases h
  | cons r rs ih =>
    rw [carryOut] at h
    cases hr : grant c a r with
    | error f =>
      rw [hr] at h
      cases h
      exact ⟨[], r, rs, rfl, .refl _, hr⟩
    | ok a₁ =>
      rw [hr] at h
      obtain ⟨done, refused, rest, rfl, hdone, hrefused⟩ := ih h
      exact ⟨r :: done, refused, rest, rfl, (performed_of_grant hr).trans hdone, hrefused⟩

end Analyze

end Coupling.Project
