import Coupling.Proofs.Granting

/-!
# Declarations found again

A reading of a file finds the symbol of a declaration by names: a class by its simple name, a method
by its signature. The collection of the file has stored it under these names, but what comes later
under the same name replaces it. A declaration that nothing later replaces is found again
(`found_of_lasts`).

If that holds of all declarations that a reading comes to, the reading is one that knows each
declaration by its number and looks nothing up (`visit_eq_visitLexical`). Such a reading notes names
where they belong: what a declaration states on its own symbol, and a method on the symbol it is
declared in (`depends_script`, `visit_gained`). A reading does not come to what is declared below a
field or local variable declaration.
-/

namespace Coupling.Project

open Java (ParseTree)
open Steps

/-! ## What a reading comes to -/

mutual

/-- The declarations that a reading comes to: those that do not stand below a field or local
variable declaration. They are numbered as in the outline. -/
def seen (scope : Option SymbolId) (next : Nat) : ParseTree → List Declaration
  | .node info cs =>
    match Role.ofForm info.form with
    | .type kind => ⟨kind, info, cs, scope, next⟩ :: seenOf (some next) (next + 1) cs
    | .method => ⟨.method, info, cs, scope, next⟩ :: seenOf (some next) (next + 1) cs
    | .other => seenOf scope next cs
    | _ => []
  | _ => []

def seenOf (scope : Option SymbolId) (next : Nat) : List ParseTree → List Declaration
  | [] => []
  | t :: ts => seen scope next t ++ seenOf scope
    (next + (declarations (outline scope next t)).length) ts

end

mutual

theorem seen_subset : ∀ (t : ParseTree) (scope : Option SymbolId) (next : Nat),
    seen scope next t ⊆ declarations (outline scope next t)
  | .token _, _, _ | .skipped _, _, _ | .missing _, _, _ => List.nil_subset _
  | .node info cs, scope, next => by
    rw [seen, outline]
    cases Role.ofForm info.form with
    | package | «import» => exact List.nil_subset _
    | type kind | method => exact List.cons_subset_cons _ (seenOf_subset cs (some next) (next + 1))
    | field => exact List.nil_subset _
    | other => exact seenOf_subset cs scope next

theorem seenOf_subset : ∀ (ts : List ParseTree) (scope : Option SymbolId) (next : Nat),
    seenOf scope next ts ⊆ declarations (outlineOf scope next ts)
  | [], _, _ => List.nil_subset _
  | t :: ts, scope, next => by
    rw [seenOf, outlineOf, declarations_append]
    intro d hd
    rcases List.mem_append.mp hd with hd | hd
    · exact List.mem_append.mpr (.inl (seen_subset t scope next hd))
    · exact List.mem_append.mpr (.inr (seenOf_subset ts scope _ hd))

end

mutual

/-- How many declarations a tree has does not depend on where it stands. -/
theorem length_outline : ∀ (t : ParseTree) (scope scope' : Option SymbolId) (next next' : Nat),
    (declarations (outline scope next t)).length = (declarations (outline scope' next' t)).length
  | .token _, _, _, _, _ | .skipped _, _, _, _, _ | .missing _, _, _, _, _ => rfl
  | .node info cs, scope, scope', next, next' => by
    rw [outline, outline]
    cases Role.ofForm info.form with
    | package | «import» => rfl
    | type kind | method => exact congrArg (· + 1) (length_outlineOf cs (some next) (some next')
      (next + 1) (next' + 1))
    | field | other => exact length_outlineOf cs scope scope' next next'

theorem length_outlineOf : ∀ (ts : List ParseTree) (scope scope' : Option SymbolId)
    (next next' : Nat),
    (declarations (outlineOf scope next ts)).length =
      (declarations (outlineOf scope' next' ts)).length
  | [], _, _, _, _ => rfl
  | t :: ts, scope, scope', next, next' => by
    rw [outlineOf, outlineOf, declarations_append, declarations_append,
      List.length_append, List.length_append, length_outline t scope scope' next next',
      length_outlineOf ts scope scope' _ _]

end

/-- Nothing is declared below a field or local variable declaration. -/
def FieldsDeclareNothing (places : List Spot) : Prop :=
  ∀ p ∈ places, roleOf p.node = .field → declarations (outline none 0 p.node) = []

mutual

/-- A reading comes to all declarations if nothing is declared below a field or local variable
declaration. -/
theorem seen_eq_declarations : ∀ (t : ParseTree) {above : List ParseTree} (scope : Option SymbolId)
    (next : Nat),
    FieldsDeclareNothing (spots above t) → seen scope next t = declarations (outline scope next t)
  | .token _, _, _, _, _ | .skipped _, _, _, _, _ | .missing _, _, _, _, _ => rfl
  | .node info cs, above, scope, next, h => by
    have hbelow : FieldsDeclareNothing (spotsOf (.node info cs :: above) cs) :=
      fun p hp => h p (List.mem_cons_of_mem _ hp)
    rw [seen]
    cases hrole : Role.ofForm info.form with
    | package | «import» => simp [outline, hrole, declarations, Item.declaration?]
    | type kind | method =>
      rw [outline, hrole]
      exact congrArg (_ :: ·) (seenOf_eq_declarations cs (some next) (next + 1) hbelow)
    | field =>
      -- Whether anything is declared there does not depend on the numbers.
      have hnone := h ⟨.node info cs, above⟩ List.mem_cons_self hrole
      have hlen := length_outline (.node info cs) scope none next 0
      rw [hnone, List.length_nil, List.length_eq_zero_iff] at hlen
      exact hlen.symm
    | other =>
      rw [outline, hrole]
      exact seenOf_eq_declarations cs scope next hbelow

theorem seenOf_eq_declarations : ∀ (ts : List ParseTree) {above : List ParseTree}
    (scope : Option SymbolId)
    (next : Nat), FieldsDeclareNothing (spotsOf above ts) →
    seenOf scope next ts = declarations (outlineOf scope next ts)
  | [], _, _, _, _ => rfl
  | t :: ts, above, scope, next, h => by
    rw [seenOf, outlineOf, declarations_append,
      seen_eq_declarations t scope next fun p hp => h p (List.mem_append_left _ hp),
      seenOf_eq_declarations ts scope _ fun p hp => h p (List.mem_append_right _ hp)]

end

/-! ## Names that are noted -/

mutual

/-- What the declarations of a tree note, each name with the symbol it is noted on: a declaration
notes the names that its types are made of on its own symbol, a field or local variable on the
symbol it is declared in, and a method is noted by its full name on the symbol it is declared in. -/
def notes (full : Table String) (nameOf : SymbolId → String) (scope : Option SymbolId)
    (next : Nat) :
    ParseTree → List (Option SymbolId × String)
  | .node info cs =>
    let stated := statedNames full (.node info cs)
    match Role.ofForm info.form with
    | .type _ => stated.map (some next, ·) ++ notesOf full nameOf (some next) (next + 1) cs
    | .method => (scope, nameOf next) :: (stated.map (some next, ·) ++
      notesOf full nameOf (some next) (next + 1) cs)
    | .field => stated.map (scope, ·)
    | .other => notesOf full nameOf scope next cs
    | _ => []
  | _ => []

def notesOf (full : Table String) (nameOf : SymbolId → String) (scope : Option SymbolId)
    (next : Nat) :
    List ParseTree → List (Option SymbolId × String)
  | [] => []
  | t :: ts => notes full nameOf scope next t ++
      notesOf full nameOf scope (next + (declarations (outline scope next t)).length) ts

end

/-- The names noted on a symbol; predefined names are passed over. -/
def notedOn (id : SymbolId) (ns : List (Option SymbolId × String)) : List String :=
  (ns.filter fun n => decide (n.1 = some id) && !isPredefined n.2).map (·.2)

/-- A declaration is looked up under its own names, and its symbol is then held by `handleOf`:
`hold` says how symbols are held that are looked up. -/
structure Declaration.Stands {β : Type} (full : Table String) (nameOf : SymbolId → String)
    (hold : Handle → β) (handleOf : SymbolId → β) (d : Declaration) : Prop where
  type : d.kind ≠ .method → ∃ n name, d.node.first? .identifier = some n ∧
    full.get? n.text = some name ∧
    hold (.ofClass name) = handleOf d.id
  method : d.kind = .method → ∃ key, signatureOf full d.node = .ok key ∧
    full.get? key = some (nameOf d.id) ∧
    hold (.ofSymbol (nameOf d.id)) = handleOf d.id

section Depends

variable {β : Type} {full : Table String} {nameOf : SymbolId → String} {hold : Handle → β}
  {handleOf : SymbolId → β}

mutual

/-- A reading that does not end of itself notes what the declarations of the tree note. -/
theorem depends_script : ∀ (t : ParseTree) {w : Place} {scope : Option SymbolId} {next : Nat},
    Unbroken (script full w t) → (∀ d ∈ seen scope next t, d.Stands full nameOf hold handleOf) →
    w.owner.map hold = scope.map handleOf →
    ((script full w t).filterMap Request.depend?).map (Prod.map (Option.map hold) id) =
      (notes full nameOf scope next t).map (Prod.map (Option.map handleOf) id)
  | .token _, _, _, _, _, _, _ | .skipped _, _, _, _, _, _, _ | .missing _, _, _, _, _, _, _ => rfl
  | .node info cs, w, scope, next, h, hseen, howner => by
    rw [seen] at hseen
    rw [notes]
    cases hrole : roleOf (.node info cs) with
    | package =>
      rw [script_package h hrole]
      simp only [show Role.ofForm info.form = .package from hrole]
      rfl
    | «import» =>
      obtain ⟨name, hscript⟩ := script_import h hrole
      rw [hscript]
      simp only [show Role.ofForm info.form = .import from hrole]
      rfl
    | type kind =>
      simp only [show Role.ofForm info.form = .type kind from hrole] at hseen ⊢
      obtain ⟨hown, hrest⟩ := List.forall_mem_cons.mp hseen
      obtain ⟨n, name, hn, hname, hheld⟩ := hown.type (Collect.kind_ne_method hrole)
      obtain ⟨n', name', hn', hname', hscript⟩ := script_type h hrole
      cases hn.symm.trans hn'
      cases hname.symm.trans hname'
      rw [hscript] at h ⊢
      rw [List.filterMap_cons_none (f := Request.depend?) rfl, List.filterMap_append,
        filterMap_inheriting _ _ _ fun _ _ => rfl, depends_stated, List.map_append, List.map_append,
        depends_scriptAll cs h.tail.right hrest (congrArg some hheld)]
      simp only [List.map_map, Function.comp_def, Prod.map_apply, Option.map_some, hheld, id]
      rfl
    | method =>
      simp only [show Role.ofForm info.form = .method from hrole] at hseen ⊢
      obtain ⟨hown, hrest⟩ := List.forall_mem_cons.mp hseen
      obtain ⟨key, hkey, hname, hheld⟩ := hown.method rfl
      obtain ⟨key', name', hkey', hname', hscript⟩ := script_method h hrole
      cases hkey.symm.trans hkey'
      cases hname.symm.trans hname'
      rw [hscript] at h ⊢
      rw [List.filterMap_cons_none (f := Request.depend?) rfl,
        List.filterMap_cons_some (f := Request.depend?) rfl, List.filterMap_append, depends_stated,
        List.map_cons, List.map_cons, List.map_append, List.map_append,
        depends_scriptAll cs h.tail.tail.right hrest (congrArg some hheld)]
      simp only [List.map_map, Function.comp_def, Prod.map_apply, Option.map_some,
        hheld, howner, id]
      rfl
    | field =>
      rw [script_field h hrole, depends_stated]
      simp only [show Role.ofForm info.form = .field from hrole, List.map_map, Function.comp_def,
        Prod.map_apply, howner]
      rfl
    | other =>
      rw [script_other hrole] at h ⊢
      simp only [show Role.ofForm info.form = .other from hrole] at hseen ⊢
      exact depends_scriptAll cs h hseen howner

theorem depends_scriptAll : ∀ (ts : List ParseTree) {w : Place} {scope : Option SymbolId}
    {next : Nat},
    Unbroken (scriptAll full w ts) →
    (∀ d ∈ seenOf scope next ts, d.Stands full nameOf hold handleOf) →
    w.owner.map hold = scope.map handleOf →
    ((scriptAll full w ts).filterMap Request.depend?).map (Prod.map (Option.map hold) id) =
      (notesOf full nameOf scope next ts).map (Prod.map (Option.map handleOf) id)
  | [], _, _, _, _, _, _ => rfl
  | t :: ts, w, scope, next, h, hseen, howner => by
    rw [seenOf] at hseen
    rw [scriptAll] at h ⊢
    rw [notesOf, List.filterMap_append, List.map_append, List.map_append,
      depends_script t h.left (fun d hd => hseen d (List.mem_append_left _ hd)) howner,
      depends_scriptAll ts h.right (fun d hd => hseen d (List.mem_append_right _ hd)) howner]

end

end Depends

/-- What requests add to a symbol are the names noted on it, if they note them on the symbol that is
found. -/
theorem filterMap_dependency {classes : ClassTable} {symbols : Table SymbolId} {rs : List Request}
    {ns : List (Option SymbolId × String)} (h : (rs.filterMap Request.depend?).map
      (Prod.map (Option.map (Handle.find classes symbols)) id) =
        ns.map (Prod.map (Option.map some) id)) (o : SymbolId) :
    rs.filterMap (·.dependency? classes symbols o) = notedOn o ns := by
  let noted (n : Option (Option SymbolId) × String) : Option String :=
    if n.1 = some (some o) ∧ isPredefined n.2 = false then some n.2 else none
  have hrequests : rs.filterMap (·.dependency? classes symbols o) =
      ((rs.filterMap Request.depend?).map
        (Prod.map (Option.map (Handle.find classes symbols)) id)).filterMap noted := by
    rw [List.filterMap_map, List.filterMap_filterMap]
    refine List.filterMap_congr fun r _ => ?_
    cases r with
    | depend owner name => cases owner <;> simp [Request.depend?, Request.dependency?, noted]
    | _ => rfl
  rw [hrequests, h, List.filterMap_map, notedOn, ← List.filterMap_eq_map, List.filterMap_filter]
  refine List.filterMap_congr fun n _ => ?_
  simp [noted]

namespace Analyze

variable {c : Setting} {s : Surroundings} {a a' a'' : Analysis}

/-! ## Looking up declarations -/

/-- The look-up that a reading makes at a declaration. -/
def lookup (c : Setting) (d : Declaration) : Analyze SymbolId :=
  if d.kind = .method then methodOf c d.node else classOf c d.node

/-- A declaration stands where a reading looks it up. -/
def Found (c : Setting) (symbols : Table SymbolId) (d : Declaration) : Prop :=
  if d.kind = .method then
    ∃ key name, signatureOf c.full d.node = .ok key ∧ c.full.get? key = some name ∧
      symbols.get? name = some d.id
  else
    ∃ n name, d.node.first? .identifier = some n ∧ c.full.get? n.text = some name ∧
      c.classes.get? name = some d.id

theorem Found.lookup {d : Declaration} (h : Found c a.symbols d) :
    (lookup c d).run.run a = (.ok d.id, a) := by
  unfold Found at h
  unfold Analyze.lookup
  split at h
  · next hkind =>
    obtain ⟨key, name, hkey, hname, hid⟩ := h
    rw [if_pos hkind]
    unfold methodOf
    simp only [run_bind, run_liftExcept, hkey, lookUp_eq_ok.mpr hname, run_get,
      lookUp_eq_ok.mpr hid]
  · next hkind =>
    obtain ⟨n, name, hn, hname, hid⟩ := h
    rw [if_neg hkind]
    unfold classOf textOf
    simp only [run_bind, run_need, hn, run_pure, run_liftExcept, lookUp_eq_ok.mpr hname,
      lookUp_eq_ok.mpr hid]

theorem Found.mono {symbols symbols' : Table SymbolId} {d : Declaration} (h : Found c symbols d)
    (hs : ∀ name id, symbols.get? name = some id → symbols'.get? name = some id) :
    Found c symbols' d := by
  unfold Found at h ⊢
  split at h
  · next hkind =>
    obtain ⟨key, name, hkey, hname, hid⟩ := h
    rw [if_pos hkind]
    exact ⟨key, name, hkey, hname, hs name d.id hid⟩
  · next hkind =>
    rw [if_neg hkind]
    exact h

/-- All of some declarations stand where a reading looks them up. -/
def AllFound (c : Setting) (ds : List Declaration) (a : Analysis) : Prop :=
  ∀ d ∈ ds, Found c a.symbols d

theorem stable_found (c : Setting) (ds : List Declaration) : Stable c (AllFound c ds) where
  onDependency _ _ _ h _ _ := h
  onSuper _ _ _ h := h
  onCount _ _ _ _ h _ := h
  onImport a i h hi hclass hnew d hd :=
    (h d hd).mono ((stable_symbols c a.symbols).onImport a i (fun _ _ h => h) hi hclass hnew)

/-! ## Reading by numbers -/

mutual

/-- Reads a tree and looks nothing up: the declarations are numbered in order, from `next` on. -/
def visitLexical (c : Setting) (s : Surroundings) (next : SymbolId) : ParseTree → Analyze Unit
  | .node info cs => do
    let t := ParseTree.node info cs
    match Role.ofForm info.form with
    | .package => do let _ ← textOf (t.first? .qualifiedName)
    | .import => addImport c info t
    | .type kind => do
      (← liftExcept (supertypes kind t)).forM (inherit c next)
      visitAllLexical c ⟨some next, (← get).registry.fullName next⟩ (next + 1) cs
    | .method => do
      depend s.symbol ((← get).registry.fullName next)
      (← liftExcept (methodTypes t)).forM (refer c (some next) s.className)
      visitAllLexical c { s with symbol := some next } (next + 1) cs
    | .field => do refer c s.symbol s.className (← textOf (t.first? .typeType))
    | .other => visitAllLexical c s next cs
  | _ => pure ()

def visitAllLexical (c : Setting) (s : Surroundings) (next : SymbolId) :
    List ParseTree → Analyze Unit
  | [] => pure ()
  | t :: ts => do
    visitLexical c s next t
    visitAllLexical c s (next + (declarations (outline s.symbol next t)).length) ts

end

/-- Two continuations that agree wherever a property holds that the first part keeps. -/
theorem run_bind_congr {α β : Type} {P : Analysis → Prop} {x : Analyze α} {f g : α → Analyze β}
    (hx : Keeps P x) (ha : P a) (h : ∀ r a', P a' → (f r).run.run a' = (g r).run.run a') :
    (x >>= f).run.run a = (x >>= g).run.run a := by
  rw [run_bind, run_bind]
  rcases hr : x.run.run a with ⟨_ | r, a'⟩
  · rfl
  · exact h r a' (hx.of_run ha hr)

mutual

/-- A reading that finds the declarations it comes to is a reading by numbers. -/
theorem visit_eq_visitLexical {ds : List Declaration} :
    ∀ (t : ParseTree) {s : Surroundings} {next : SymbolId}
    {a : Analysis}, seen s.symbol next t ⊆ ds → AllFound c ds a →
    (visit c s t).run.run a = (visitLexical c s next t).run.run a
  | .token _, _, _, _, _, _ | .skipped _, _, _, _, _, _ | .missing _, _, _, _, _, _ => rfl
  | .node info cs, s, next, a, hseen, ha => by
    rw [visit, visitLexical]
    rw [seen] at hseen
    cases hrole : Role.ofForm info.form with
    | package | «import» => rfl
    | type kind =>
      simp only [hrole] at hseen
      obtain ⟨hown, hbelow⟩ := List.cons_subset.mp hseen
      have hclass : (classOf c (.node info cs)).run.run a = (.ok next, a) := by
        have hfound := (ha _ hown).lookup
        rwa [lookup, if_neg (Collect.kind_ne_method hrole)] at hfound
      simp only [enterType, bind_assoc, pure_bind]
      rw [run_bind, hclass]
      -- What is below the class is still found after its supertypes are noted: no name is given to
      -- another symbol.
      refine run_bind_congr (keeps_liftExcept _) ha fun types a₁ ha₁ => ?_
      refine run_bind_congr (keeps_forM _ ((stable_found c ds).keeps_inherit next)) ha₁
        fun _ a₂ ha₂ => ?_
      exact visitAll_eq_visitAllLexical cs hbelow ha₂
    | method =>
      simp only [hrole] at hseen
      obtain ⟨hown, hbelow⟩ := List.cons_subset.mp hseen
      have hmethod : (methodOf c (.node info cs)).run.run a = (.ok next, a) := by
        have hfound := (ha _ hown).lookup
        rwa [lookup, if_pos rfl] at hfound
      simp only [enterMethod, bind_assoc, pure_bind]
      rw [run_bind, hmethod]
      refine run_bind_congr keeps_get ha fun a₁ a₂ ha₂ => ?_
      refine run_bind_congr ((stable_found c ds).keeps_depend _ _) ha₂ fun _ a₃ ha₃ => ?_
      refine run_bind_congr (keeps_liftExcept _) ha₃ fun types a₄ ha₄ => ?_
      refine run_bind_congr (keeps_forM _ ((stable_found c ds).keeps_refer _ _)) ha₄ fun _ a₅ ha₅ =>
        ?_
      exact visitAll_eq_visitAllLexical cs hbelow ha₅
    | field => rfl
    | other =>
      simp only [hrole] at hseen
      exact visitAll_eq_visitAllLexical cs hseen ha

theorem visitAll_eq_visitAllLexical {ds : List Declaration} :
    ∀ (ts : List ParseTree) {s : Surroundings}
    {next : SymbolId} {a : Analysis}, seenOf s.symbol next ts ⊆ ds → AllFound c ds a →
    (visitAll c s ts).run.run a = (visitAllLexical c s next ts).run.run a
  | [], _, _, _, _, _ => rfl
  | t :: ts, s, next, a, hseen, ha => by
    rw [seenOf, List.append_subset] at hseen
    rw [visitAll, visitAllLexical, run_bind, run_bind, ← visit_eq_visitLexical t hseen.1 ha]
    rcases hr : (visit c s t).run.run a with ⟨_ | _, a₁⟩
    · rfl
    · exact visitAll_eq_visitAllLexical ts hseen.2
        ((visit_keeps (stable_found c ds) s t).of_run ha hr)

end

/-! ## What a reading by numbers notes -/

/-- Symbols have come to depend on the names that were noted on them. What is noted on no symbol is
predefined. -/
structure Gained (ns : List (Option SymbolId × String)) (a a' : Analysis) : Prop where
  dependency : ∀ id < a.registry.size, a'.registry.dependency id = a.registry.dependency id ++
    notedOn id ns
  outside : ∀ n ∈ ns, n.1 = none → isPredefined n.2 = true

/-- A reading that finds its declarations and comes to its end notes what they note. -/
theorem visit_gained (ha : Consistent c a) {nameOf : SymbolId → String} {next : SymbolId}
    {t : ParseTree}
    (hfound : AllFound c (seen none next t) a)
    (hnames : ∀ d ∈ seen none next t, nameOf d.id = a.registry.fullName d.id)
    (h : (visit c {} t).run.run a = (.ok (), a')) :
    Gained (notes c.full nameOf none next t) a a' := by
  rw [ha.visit_eq t] at h
  have hstands : ∀ d ∈ seen none next t, d.Stands c.full nameOf
      (Handle.find c.classes a.symbols) some := by
    intro d hd
    have hd' := hfound d hd
    unfold Found at hd'
    refine ⟨fun hkind => by rwa [if_neg hkind] at hd', fun hkind => ?_⟩
    rw [if_pos hkind] at hd'
    obtain ⟨key, name, hkey, hname, hid⟩ := hd'
    rw [hnames d hd, ha.symbols.fullName hid]
    exact ⟨key, hkey, hname, hid⟩
  have hdepends := depends_script t (unbroken_of_carryOut h) hstands rfl
  have hdone := performed_of_carryOut h
  refine ⟨fun id hid => ?_, fun n hn hnone => ?_⟩
  · rw [hdone.dependency id hid, filterMap_dependency hdepends]
  · -- What is noted on no symbol is granted only if it is predefined.
    have hmem : (none, n.2) ∈ (notes c.full nameOf none next t).map
        (Prod.map (Option.map some) id) :=
      List.mem_map.mpr ⟨n, hn, by rw [Prod.map, hnone]; rfl⟩
    rw [← hdepends] at hmem
    obtain ⟨⟨owner, name⟩, hnote, heq⟩ := List.mem_map.mp hmem
    obtain ⟨howner, rfl⟩ := Prod.mk.inj heq
    obtain ⟨a₁, a₂, hgrant⟩ := exists_grant h (mem_depends_iff.mp hnote)
    cases Option.map_eq_none_iff.mp howner
    by_contra hpre
    rw [grant, if_neg hpre] at hgrant
    split at hgrant <;> cases hgrant

end Analyze

/-! ## What is found again -/

/-- The items that come after a declaration. -/
def itemsAfter (id : SymbolId) : List Item → List Item
  | [] => []
  | .declaration d :: items => if d.id = id then items else itemsAfter id items
  | _ :: items => itemsAfter id items

theorem Ordered.split {start next : Nat} {items : List Item} (h : Ordered start next items)
    {d : Declaration}
    (hd : d ∈ declarations items) :
    ∃ before, items = before ++ .declaration d :: itemsAfter d.id items := by
  induction items generalizing next with
  | nil => cases hd
  | cons item items ih =>
    cases item with
    | package t =>
      obtain ⟨before, heq⟩ := ih h hd
      exact ⟨.package t :: before, congrArg (Item.package t :: ·) heq⟩
    | «import» t =>
      obtain ⟨before, heq⟩ := ih h hd
      exact ⟨.import t :: before, congrArg (Item.import t :: ·) heq⟩
    | declaration d' =>
      rcases List.mem_cons.mp (show d ∈ d' :: declarations items from hd) with rfl | hmem
      · refine ⟨[], ?_⟩
        rw [itemsAfter, if_pos rfl]
        rfl
      · -- Numbers rise, so the one that is looked for is not that of `d'`.
        obtain ⟨before, heq⟩ := ih h.2.2 hmem
        have hlater := (h.2.2.id_range hmem).1
        rw [itemsAfter, if_neg (by rw [h.1]; exact Nat.ne_of_lt hlater)]
        exact ⟨.declaration d' :: before, congrArg (Item.declaration d' :: ·) heq⟩

/-- A declaration divides what a collection of its file takes. -/
theorem outlines_split {registry : Registry} {tree : ParseTree} {d : Declaration}
    (hd : d ∈ declarations (secondOutline registry tree)) :
    ∃ before, firstOutline registry tree ++ secondOutline registry tree =
        before ++ .declaration d :: itemsAfter d.id (secondOutline registry tree) ∧
      declarations (firstOutline registry tree ++ secondOutline registry tree) =
        declarations before ++
          d :: declarations (itemsAfter d.id (secondOutline registry tree)) := by
  obtain ⟨before, hsplit⟩ := (secondOutline_ordered registry tree).split hd
  have hitems : firstOutline registry tree ++ secondOutline registry tree =
      (firstOutline registry tree ++ before) ++ .declaration d ::
        itemsAfter d.id (secondOutline registry tree) := by
    rw [List.append_assoc, ← hsplit]
  refine ⟨_, hitems, ?_⟩
  rw [hitems, declarations_append]
  rfl

/-- Nothing that comes after a declaration is known in the file by the same name or has the same
full name, and the signature of a method is what the method was stored under, also with the names
that the file has in the end. -/
def Lasts (x : Collected) (items : List Item) (d : Declaration) : Prop :=
  x.registry.shortName d.id ∉ ((itemsAfter d.id items).flatMap (Pass.bindings x.registry)).map
    (·.1) ∧
    x.registry.fullName d.id ∉ (declarations (itemsAfter d.id items)).map
      (x.registry.fullName ·.id) ∧
    (d.kind = .method → signatureOf x.full d.node = .ok (x.registry.shortName d.id))

instance (x : Collected) (items : List Item) (d : Declaration) : Decidable (Lasts x items d) :=
  inferInstanceAs (Decidable (_ ∧ _))

section Lasts

variable {registry : Registry} {file source : String} {tree : ParseTree} {x : Collected}
  {d : Declaration}
  (hx : collect registry file source tree = .ok x)
  (hd : d ∈ declarations (secondOutline registry tree))
  (h : Lasts x (secondOutline registry tree) d)
include hx hd h

/-- A declaration that lasts stands under its names when the file is collected. -/
theorem collect_lasts :
    x.full.get? (x.registry.shortName d.id) = some (x.registry.fullName d.id) ∧
      x.symbols.get? (x.registry.fullName d.id) = some d.id ∧
      (d.kind ≠ .method → x.classes.get? (x.registry.fullName d.id) = some d.id) := by
  have hpass := collect_pass hx
  obtain ⟨before, hitems, hdecls⟩ := outlines_split hd
  obtain ⟨hshort, hfull, -⟩ := h
  refine ⟨?_, ?_, fun hkind => ?_⟩
  · rw [hpass.full_eq, hitems, List.flatMap_append, List.flatMap_cons]
    exact Table.get?_update_of_last hshort
  · rw [hpass.symbols_eq, hdecls, List.map_append, List.map_cons]
    refine Table.get?_update_of_last ?_
    rwa [List.map_map]
  · rw [hpass.classes_eq, hdecls, List.filter_append,
      List.filter_cons_of_pos (by simpa using hkind), List.map_append, List.map_cons]
    refine Table.get?_update_of_last fun hmem => hfull ?_
    rw [List.map_map] at hmem
    exact List.map_subset _ (List.filter_subset_self _) hmem

/-- A declaration that lasts is found by a reading that goes by what was collected, unless another
file has replaced it. -/
theorem found_of_lasts {c : Setting} {symbols : Table SymbolId} (hfull : c.full = x.full)
    (hsymbol : symbols.get? (x.registry.fullName d.id) = some d.id)
    (hclass : d.kind ≠ .method → c.classes.get? (x.registry.fullName d.id) = some d.id) :
    Analyze.Found c symbols d := by
  obtain ⟨hname, -, -⟩ := collect_lasts hx hd h
  obtain ⟨-, s, hs, -, -, htype⟩ := (collect_pass hx).described (mem_outlines hd)
  unfold Analyze.Found
  rw [hfull]
  split
  · next hkind => exact ⟨_, _, h.2.2 hkind, hname, hsymbol⟩
  · next hkind =>
    obtain ⟨n, hn, htext⟩ := htype hkind
    rw [← Registry.shortName_of_get? hs] at htext
    exact ⟨n, _, hn, by rw [htext]; exact hname, hclass hkind⟩

end Lasts

end Coupling.Project
