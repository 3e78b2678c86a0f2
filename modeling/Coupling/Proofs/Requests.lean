import Coupling.Proofs.References

/-!
# Readings as lists of requests

What a reading of a file wants to do can be written down before any of it is done: which symbols it
looks up, which names it notes on them, which interactions it counts. This list of requests
(`script`) depends on the tree and on what the simple names of the file stand for, and on nothing
that is known of the project. The project only decides how far the list is carried out: requests are
granted one after the other until one is refused (`carryOut`).

`visit_eq_carryOut` says that a reading is this and nothing else. A request names a symbol by the
table and the name it is looked up under (`Handle`), never by its number. Where no request ends the
reading of itself (`Unbroken`), the requests of a node can be read off what the node states.
-/

namespace Coupling.Project

open Java (ParseTree NodeInfo)
open Steps

/-- How a reading gets hold of a symbol: in the class table, or among the symbols. -/
inductive Handle where
  | ofClass (name : String)
  | ofSymbol (name : String)
deriving DecidableEq, Repr, Inhabited

namespace Handle

def name : Handle → String
  | .ofClass name => name
  | .ofSymbol name => name

/-- The symbol that is found. -/
def find (classes : ClassTable) (symbols : Table SymbolId) : Handle → Option SymbolId
  | .ofClass name => classes.get? name
  | .ofSymbol name => symbols.get? name

theorem find_mono {classes : ClassTable} {symbols symbols' : Table SymbolId} {h : Handle}
    {id : SymbolId} (hs : ∀ name id, symbols.get? name = some id → symbols'.get? name = some id)
    (hid : h.find classes symbols = some id) : h.find classes symbols' = some id := by
  cases h with
  | ofClass name => exact hid
  | ofSymbol name => exact hs name id hid

end Handle

/-- One thing that a reading of a file wants to do. -/
inductive Request where
  /-- End the reading. -/
  | fail (fault : Fault)
  /-- Look up the symbol of a declaration. -/
  | enter (handle : Handle)
  /-- Make an import a symbol, if it is not one. -/
  | import (name : String) (info : NodeInfo)
  /-- Note a supertype on a class. -/
  | super (name : String) (type : String)
  /-- Note on a symbol that it depends on a name. -/
  | depend (owner : Option Handle) (name : String)
  /-- Count an interaction of two classes. -/
  | interact (source target : String)
deriving DecidableEq, Inhabited

/-- The symbol and the class around a place in a file, as requests name them. -/
structure Place where
  owner : Option Handle := none
  className : String := ""
deriving Inhabited

/-! ## What a reading wants to do -/

/-- The requests of a reading that goes on with a part of the tree, if the part is there. -/
def attempt {α : Type} (part : Except Fault α) (rest : α → List Request) : List Request :=
  match part with
  | .ok a => rest a
  | .error fault => [.fail fault]

/-- The requests of a reference to a type. -/
def referring (full : Table String) (owner : Option Handle) (source type : String) : List Request :=
  (mentions full type).map (.depend owner) ++ (mentions full type).map (.interact source)

/-- The requests of a supertype of a class. -/
def inheriting (full : Table String) (name type : String) : List Request :=
  .super name (resolve full type) :: referring full (some (.ofClass name)) name type

mutual

/-- The requests of a reading of a tree. -/
def script (full : Table String) (w : Place) : ParseTree → List Request
  | .node info cs =>
    let t := ParseTree.node info cs
    match Role.ofForm info.form with
    | .package => attempt (textOf (t.first? .qualifiedName)) fun _ => []
    | .import => attempt (textOf (t.first? .qualifiedName)) fun name => [.import name info]
    | .type kind =>
      attempt (textOf (t.first? .identifier)) fun short =>
      attempt (lookUp full short) fun name =>
      .enter (.ofClass name) :: attempt (supertypes kind t) fun types =>
      types.flatMap (inheriting full name) ++ scriptAll full ⟨some (.ofClass name), name⟩ cs
    | .method =>
      attempt (signatureOf full t) fun key =>
      attempt (lookUp full key) fun name =>
      .enter (.ofSymbol name) :: .depend w.owner name :: attempt (methodTypes t) fun types =>
      types.flatMap (referring full (some (.ofSymbol name)) w.className) ++
        scriptAll full { w with owner := some (.ofSymbol name) } cs
    | .field => attempt (textOf (t.first? .typeType)) (referring full w.owner w.className)
    | .other => scriptAll full w cs
  | _ => []

def scriptAll (full : Table String) (w : Place) : List ParseTree → List Request
  | [] => []
  | t :: ts => script full w t ++ scriptAll full w ts

end

/-! ## Requests that nothing ends -/

/-- No request ends the reading of itself. -/
def Unbroken (rs : List Request) : Prop := ∀ fault, .fail fault ∉ rs

namespace Unbroken

variable {rs rs' : List Request}

theorem tail {r : Request} (h : Unbroken (r :: rs)) : Unbroken rs :=
  fun fault hf => h fault (List.mem_cons_of_mem _ hf)

theorem left (h : Unbroken (rs ++ rs')) : Unbroken rs :=
  fun fault hf => h fault (List.mem_append_left _ hf)

theorem right (h : Unbroken (rs ++ rs')) : Unbroken rs' :=
  fun fault hf => h fault (List.mem_append_right _ hf)

theorem attempt {α : Type} {part : Except Fault α} {rest : α → List Request}
    (h : Unbroken (attempt part rest)) :
    ∃ a, part = .ok a ∧ Unbroken (rest a) := by
  cases part with
  | error fault => exact absurd (List.mem_singleton.mpr rfl) (h fault)
  | ok a => exact ⟨a, rfl, h⟩

end Unbroken

theorem attempt_ok {α : Type} {part : Except Fault α} {a : α} (h : part = .ok a)
    (rest : α → List Request) :
    attempt part rest = rest a := by
  rw [h]
  rfl

section Node

variable {full : Table String} {w : Place} {info : NodeInfo} {cs : List ParseTree}

theorem script_other (hrole : roleOf (.node info cs) = .other) :
    script full w (.node info cs) = scriptAll full w cs := by
  rw [script, show Role.ofForm info.form = .other from hrole]

variable (h : Unbroken (script full w (.node info cs)))
include h

theorem script_package (hrole : roleOf (.node info cs) = .package) :
    script full w (.node info cs) = [] := by
  rw [script, show Role.ofForm info.form = .package from hrole] at h ⊢
  obtain ⟨text, htext, -⟩ := h.attempt
  exact attempt_ok htext _

theorem script_import (hrole : roleOf (.node info cs) = .import) :
    ∃ name, script full w (.node info cs) = [.import name info] := by
  rw [script, show Role.ofForm info.form = .import from hrole] at h ⊢
  obtain ⟨text, htext, -⟩ := h.attempt
  exact ⟨text, attempt_ok htext _⟩

/-- A class or interface is looked up under its simple name, and its types are inherited from. -/
theorem script_type {kind : SymbolKind} (hrole : roleOf (.node info cs) = .type kind) :
    ∃ n name, (ParseTree.node info cs).first? .identifier = some n ∧ full.get? n.text = some name ∧
      script full w (.node info cs) = .enter (.ofClass name) ::
        (((statedTypes (.node info cs)).map ParseTree.text).flatMap (inheriting full name) ++
          scriptAll full ⟨some (.ofClass name), name⟩ cs) := by
  rw [script, show Role.ofForm info.form = .type kind from hrole] at h ⊢
  obtain ⟨short, hshort, h₁⟩ := h.attempt
  obtain ⟨name, hname, h₂⟩ := h₁.attempt
  obtain ⟨types, htypes, -⟩ := h₂.tail.attempt
  obtain ⟨n, hn, rfl⟩ := exists_of_textOf hshort
  refine ⟨n, name, hn, Analyze.lookUp_eq_ok.mp hname, ?_⟩
  rw [← supertypes_eq_ok hrole htypes]
  simp only [attempt_ok hshort, attempt_ok hname, attempt_ok htypes]

/-- A method is looked up under its signature and noted on the symbol around it, and its types are
referred to. -/
theorem script_method (hrole : roleOf (.node info cs) = .method) :
    ∃ key name, signatureOf full (.node info cs) = .ok key ∧ full.get? key = some name ∧
      script full w (.node info cs) = .enter (.ofSymbol name) :: .depend w.owner name ::
        (((statedTypes (.node info cs)).map ParseTree.text).flatMap
          (referring full (some (.ofSymbol name)) w.className) ++
          scriptAll full { w with owner := some (.ofSymbol name) } cs) := by
  rw [script, show Role.ofForm info.form = .method from hrole] at h ⊢
  obtain ⟨key, hkey, h₁⟩ := h.attempt
  obtain ⟨name, hname, h₂⟩ := h₁.attempt
  obtain ⟨types, htypes, -⟩ := h₂.tail.tail.attempt
  refine ⟨key, name, hkey, Analyze.lookUp_eq_ok.mp hname, ?_⟩
  rw [← methodTypes_eq_ok hrole htypes]
  simp only [attempt_ok hkey, attempt_ok hname, attempt_ok htypes]

theorem script_field (hrole : roleOf (.node info cs) = .field) :
    script full w (.node info cs) =
      ((statedTypes (.node info cs)).map ParseTree.text).flatMap
        (referring full w.owner w.className) := by
  rw [script, show Role.ofForm info.form = .field from hrole] at h ⊢
  obtain ⟨text, htext, -⟩ := h.attempt
  have hstated : (statedTypes (.node info cs)).map ParseTree.text = [text] := by
    simp only [statedTypes, hrole]
    exact textOf_except_eq_ok htext
  rw [hstated, List.flatMap_singleton]
  exact attempt_ok htext _

end Node

/-- What a request notes, and on which symbol. -/
def Request.depend? : Request → Option (Option Handle × String)
  | .depend owner name => some (owner, name)
  | _ => none

theorem mem_depends_iff {rs : List Request} {owner : Option Handle} {name : String} :
    (owner, name) ∈ rs.filterMap Request.depend? ↔ .depend owner name ∈ rs := by
  rw [List.mem_filterMap]
  constructor
  · rintro ⟨r, hr, heq⟩
    cases r with
    | depend owner' name' =>
      cases heq
      exact hr
    | _ => cases heq
  · exact fun hr => ⟨_, hr, rfl⟩

/-- What a request counts. -/
def Request.interact? : Request → Option (String × String)
  | .interact p q => some (p, q)
  | _ => none

section Stated

variable (full : Table String) (owner : Option Handle) (source name : String) (types : List String)

/-- But for the supertypes themselves, supertypes are referred to as other types are. -/
theorem filterMap_inheriting {α : Type} {f : Request → Option α}
    (h : ∀ name type, f (.super name type) = none) :
    (types.flatMap (inheriting full name)).filterMap f =
      (types.flatMap (referring full (some (.ofClass name)) name)).filterMap f := by
  rw [List.filterMap_flatMap, List.filterMap_flatMap]
  refine List.flatMap_congr fun type _ => ?_
  rw [inheriting, List.filterMap_cons_none (h name _)]

theorem depends_stated : (types.flatMap (referring full owner source)).filterMap Request.depend? =
    (types.flatMap (mentions full)).map (owner, ·) := by
  rw [List.filterMap_flatMap, List.map_flatMap]
  refine List.flatMap_congr fun type _ => ?_
  simp [referring, Request.depend?, Function.comp_def]

theorem interactions_stated :
    (types.flatMap (referring full owner source)).filterMap Request.interact? =
    (types.flatMap (mentions full)).map (source, ·) := by
  rw [List.filterMap_flatMap, List.map_flatMap]
  refine List.flatMap_congr fun type _ => ?_
  simp [referring, Request.interact?, Function.comp_def]

end Stated

/-! ## Carrying requests out -/

namespace Analyze

variable {c : Setting} {a a' : Analysis}

/-- What comes of a request; if it is refused, nothing is changed. -/
def grant (c : Setting) (a : Analysis) : Request → Except Fault Analysis
  | .fail fault => .error fault
  | .enter h =>
    match h.find c.classes a.symbols with
    | some _ => .ok a
    | none => .error (.noKey h.name)
  | .import name info =>
    if !c.classes.contains name && !a.symbols.contains name then do
      let s ← symbolAt c.file c.source .import (Text.afterLast name '.') name info
      return withSymbol s a
    else .ok a
  | .super name type =>
    match c.classes.get? name with
    | some id => .ok { a with registry := a.registry.addSuper id type }
    | none => .ok a
  | .depend owner name =>
    if isPredefined name then .ok a
    else if a.symbols.contains name then
      match owner.bind (·.find c.classes a.symbols) with
      | some id => .ok { a with registry := a.registry.addDependency id name }
      | none => .error (.absent "dependency")
    else .error (.unknownDependency name)
  | .interact source target =>
    if source = target then .ok a
    else if c.classes.contains source && c.classes.contains target then do
      let m ← countInteraction c.numbering a.matrix source target
      return { a with matrix := some m }
    else .ok a

/-- What a request changes if it is granted: nothing, a symbol that was found, one more symbol, or
the matrix. -/
inductive Granted (c : Setting) (a : Analysis) : Analysis → Prop
  | idle : Granted c a a
  | note {h : Handle} {id : SymbolId} (hid : h.find c.classes a.symbols = some id)
    (f : Symbol → Symbol) :
    Granted c a { a with registry := a.registry.change id f }
  | symbol (i : Symbol) : Granted c a (withSymbol i a)
  | count (m : Matrix) : Granted c a { a with matrix := some m }

theorem granted_of_grant {r : Request} (h : grant c a r = .ok a') : Granted c a a' := by
  cases r with
  | fail fault => cases h
  | enter k =>
    rw [grant] at h
    split at h
    · cases h
      exact .idle
    · cases h
  | «import» name info =>
    rw [grant] at h
    split at h
    · cases hi : (symbolAt c.file c.source .import (Text.afterLast name '.') name info :
        Except Fault Symbol) with
      | error fault =>
        rw [hi] at h
        cases h
      | ok i =>
        rw [hi] at h
        cases h
        exact .symbol i
    · cases h
      exact .idle
  | super name type =>
    rw [grant] at h
    split at h
    · next id hid =>
      cases h
      exact .note (h := .ofClass name) hid _
    · cases h
      exact .idle
  | depend owner name =>
    rw [grant] at h
    split at h
    · cases h
      exact .idle
    split at h
    · split at h
      · next id hid =>
        obtain ⟨k, rfl, hk⟩ := Option.bind_eq_some_iff.mp hid
        cases h
        exact .note hk _
      · cases h
    · cases h
  | interact source target =>
    rw [grant] at h
    split at h
    · cases h
      exact .idle
    split at h
    · cases hm : countInteraction c.numbering a.matrix source target with
      | error fault =>
        rw [hm] at h
        cases h
      | ok m =>
        rw [hm] at h
        cases h
        exact .count m
    · cases h
      exact .idle

/-- Grants requests one after the other until one is refused. -/
def carryOut (c : Setting) : List Request → Analysis → Except Fault Unit × Analysis
  | [], a => (.ok (), a)
  | r :: rs, a =>
    match grant c a r with
    | .ok a' => carryOut c rs a'
    | .error fault => (.error fault, a)

variable {P : Analysis → Prop} {w : Place} {s : Surroundings}

/-- What no granted request can break holds however far requests are carried out. -/
theorem carryOut_keeps (hP : ∀ a a', P a → Granted c a a' → P a') (rs : List Request) (ha : P a) :
    P (carryOut c rs a).2 := by
  induction rs generalizing a with
  | nil => exact ha
  | cons r rs ih =>
    rw [carryOut]
    cases hr : grant c a r with
    | error fault => exact ha
    | ok a' => exact ih (hP a a' ha (granted_of_grant hr))

theorem carryOut_append (rs rs' : List Request) (a : Analysis) :
    carryOut c (rs ++ rs') a =
      match carryOut c rs a with
      | (.ok (), a') => carryOut c rs' a'
      | (.error fault, a') => (.error fault, a') := by
  induction rs generalizing a with
  | nil => rfl
  | cons r rs ih =>
    rw [List.cons_append, carryOut, carryOut]
    cases grant c a r with
    | error fault => rfl
    | ok a' => exact ih a'

/-- A step and the list of requests that it is. -/
def Does (c : Setting) (x : Analyze Unit) (rs : List Request) (a : Analysis) : Prop :=
  x.run.run a = carryOut c rs a

variable {rs : List Request} {α : Type} {id : SymbolId} {t : ParseTree} {cs : List ParseTree}
  {below : String → List Request} {f : α → Analyze Unit} {g : α → List Request}

/-- One step after the other does the requests of the one and then those of the other. -/
theorem Does.bind {x : Analyze Unit} {f : Unit → Analyze Unit} {rs' : List Request}
    (hx : Does c x rs a)
    (hkeeps : Keeps P x) (ha : P a) (hf : ∀ a', P a' → Does c (f ()) rs' a') :
    Does c (x >>= f) (rs ++ rs') a := by
  unfold Does at hx ⊢
  rw [run_bind, carryOut_append, ← hx]
  rcases hr : x.run.run a with ⟨_ | ⟨⟩, a'⟩
  · rfl
  · exact hf a' (hkeeps.of_run ha hr)

theorem Does.forM (hkeeps : ∀ x, Keeps P (f x)) (hf : ∀ x a, P a → Does c (f x) (g x) a)
    (xs : List α) (ha : P a) :
    Does c (xs.forM f) (xs.flatMap g) a := by
  induction xs generalizing a with
  | nil => rfl
  | cons x xs ih =>
    rw [List.flatMap_cons]
    exact Does.bind (hf x a ha) (hkeeps x) ha fun a' ha' => ih ha'

/-- A step that needs a part of the tree ends if the part is not there. -/
theorem does_attempt {part : Except Fault α} (h : ∀ v, part = .ok v → Does c (f v) (g v) a) :
    Does c (liftExcept part >>= f) (attempt part g) a := by
  unfold Does
  rw [run_bind, run_liftExcept]
  cases part with
  | error fault => rfl
  | ok v => exact h v rfl

theorem run_textOf (part : Option ParseTree) (a : Analysis) :
    (textOf part : Analyze String).run.run a = (textOf part, a) := by
  cases part <;> rfl

theorem does_textOf {part : Option ParseTree} {f : String → Analyze Unit}
    {g : String → List Request}
    (h : ∀ text, Does c (f text) (g text) a) :
    Does c (textOf part >>= f) (attempt (textOf part) g) a := by
  unfold Does
  rw [run_bind, run_textOf]
  cases part with
  | none => rfl
  | some t => exact h t.text

/-! ## Single requests -/

/-- A place in a file and what is known there: the symbol around it stands where the requests look
it up. -/
structure Stands (c : Setting) (w : Place) (s : Surroundings) (a : Analysis) : Prop where
  className : s.className = w.className
  inside : ∀ h, w.owner = some h → ∃ id, s.symbol = some id ∧ h.find c.classes a.symbols = some id
  outside : w.owner = none → s.symbol = none

theorem Stands.find (h : Stands c w s a) :
    w.owner.bind (·.find c.classes a.symbols) = s.symbol := by
  cases hw : w.owner with
  | none => exact (h.outside hw).symm
  | some k =>
    obtain ⟨id, hid, hfind⟩ := h.inside k hw
    rw [hid]
    exact hfind

/-- A symbol is found under its name. -/
structure Consistent (c : Setting) (a : Analysis) : Prop where
  classes : Named c.classes a.registry
  symbols : Named a.symbols a.registry

theorem stable_consistent (c : Setting) : Stable c (Consistent c) where
  onDependency _ id name h _ _ :=
    ⟨h.classes.later (.addDependency _ id name), h.symbols.later (.addDependency _ id name)⟩
  onSuper _ id name h := ⟨h.classes.later (.addSuper _ id name),
    h.symbols.later (.addSuper _ id name)⟩
  onCount _ _ _ _ h _ := ⟨h.classes, h.symbols⟩
  onImport a i h _ _ _ := by
    refine ⟨h.classes.later (.add _ i), fun name id hid => ?_⟩
    unfold withSymbol at hid ⊢
    rw [Table.get?_put] at hid
    split at hid
    · next hname =>
      cases hid
      exact ⟨i, Registry.get?_add_self _ i, hname.symm⟩
    · exact (h.symbols.later (.add _ i)) name id hid

/-- A reading puts symbols under new names only. -/
theorem stable_symbols (c : Setting) (symbols : Table SymbolId) :
    Stable c fun a => ∀ name id, symbols.get? name = some id → a.symbols.get? name = some id where
  onDependency _ _ _ h _ _ := h
  onSuper _ _ _ h := h
  onCount _ _ _ _ h _ := h
  onImport a i h _ _ hnew := by
    intro name id hid
    have hold := h name id hid
    have hne : name ≠ i.fullName := by
      rintro rfl
      rw [Table.contains, hold] at hnew
      cases hnew
    show (a.symbols.put i.fullName a.registry.size).get? name = some id
    rw [Table.get?_put, if_neg hne]
    exact hold

theorem stable_stands (c : Setting) (w : Place) (s : Surroundings) : Stable c (Stands c w s) where
  onDependency _ _ _ h _ _ := ⟨h.className, h.inside, h.outside⟩
  onSuper _ _ _ h := ⟨h.className, h.inside, h.outside⟩
  onCount _ _ _ _ h _ := ⟨h.className, h.inside, h.outside⟩
  onImport a i h hi hclass hnew := by
    refine ⟨h.className, fun k hk => ?_, h.outside⟩
    obtain ⟨id, hid, hfind⟩ := h.inside k hk
    exact ⟨id, hid, Handle.find_mono
      ((stable_symbols c a.symbols).onImport a i (fun _ _ h => h) hi hclass hnew) hfind⟩

/-- What a reading relies on at a place. -/
def Known (c : Setting) (w : Place) (s : Surroundings) (a : Analysis) : Prop :=
  Consistent c a ∧ Stands c w s a

theorem stable_known (c : Setting) (w : Place) (s : Surroundings) : Stable c (Known c w s) where
  onDependency a id name h hp hn :=
    ⟨(stable_consistent c).onDependency a id name h.1 hp hn,
      (stable_stands c w s).onDependency a id name h.2 hp hn⟩
  onSuper a id name h := ⟨(stable_consistent c).onSuper a id name h.1,
    (stable_stands c w s).onSuper a id name h.2⟩
  onCount a m p q h hm :=
    ⟨(stable_consistent c).onCount a m p q h.1 hm, (stable_stands c w s).onCount a m p q h.2 hm⟩
  onImport a i h hi hc hn :=
    ⟨(stable_consistent c).onImport a i h.1 hi hc hn,
      (stable_stands c w s).onImport a i h.2 hi hc hn⟩

theorem does_depend {owner : Option Handle} {id : Option SymbolId} (name : String)
    (h : owner.bind (·.find c.classes a.symbols) = id) :
    Does c (depend id name) [.depend owner name] a := by
  unfold Does
  rw [run_depend, carryOut, grant, h]
  by_cases hp : isPredefined name = true
  · rw [if_pos hp, if_pos hp]
    rfl
  · rw [if_neg hp, if_neg hp]
    by_cases hc : a.symbols.contains name = true
    · rw [if_pos hc, if_pos hc]
      cases id <;> rfl
    · rw [if_neg hc, if_neg hc]

theorem does_interact (source target : String) (a : Analysis) :
    Does c (interact c source target) [.interact source target] a := by
  unfold Does
  rw [run_interact, carryOut, grant]
  split
  · rfl
  · split
    · cases countInteraction c.numbering a.matrix source target <;> rfl
    · rfl

theorem does_refer (source type : String) (h : Stands c w s a) :
    Does c (refer c s.symbol source type) (referring c.full w.owner source type) a := by
  unfold refer referring
  rw [List.map_eq_flatMap, List.map_eq_flatMap]
  have hstable := stable_stands c w s
  refine Does.bind (Does.forM (fun name => hstable.keeps_depend _ name) (fun name a' ha' => ?_) _ h)
    (keeps_forM _ fun name => hstable.keeps_depend _ name) h fun a' _ => ?_
  · exact does_depend name ha'.find
  · exact Does.forM (P := fun _ => True) (fun _ _ _ => trivial)
      (fun q a' _ => does_interact source q a') _ trivial

theorem does_inherit {name : String} (type : String) (ha : Consistent c a)
    (hid : c.classes.get? name = some id) :
    Does c (inherit c id type) (inheriting c.full name type) a := by
  have hname : (withSuper c id type a).registry.fullName id = name :=
    ((stable_consistent c).onSuper a id _ ha).classes.fullName hid
  unfold Does inheriting
  rw [run_inherit, hname, carryOut, grant, hid]
  exact does_refer (w := ⟨some (.ofClass name), name⟩) (s := ⟨some id, name⟩) name type
    ⟨rfl, fun k hk => ⟨id, rfl, by cases hk; exact hid⟩, fun hnone => by cases hnone⟩

/-- A declaration is looked up, and the rest goes on with its symbol. -/
theorem does_enter {h : Handle} {table : Table SymbolId} {f : SymbolId → Analyze Unit}
    (htable : h.find c.classes a.symbols = table.get? h.name)
    (hf : ∀ id, h.find c.classes a.symbols = some id → Does c (f id) rs a) :
    Does c (liftExcept (lookUp table h.name) >>= f) (.enter h :: rs) a := by
  unfold Does lookUp
  rw [run_bind, run_liftExcept, carryOut, grant, htable]
  cases hfind : table.get? h.name with
  | none => rfl
  | some id => exact hf id (htable.trans hfind)

theorem does_addImport (info : NodeInfo) (t : ParseTree) (a : Analysis) :
    Does c (addImport c info t) (attempt (textOf (t.first? .qualifiedName)) fun name =>
      [.import name info]) a := by
  refine does_textOf fun name => ?_
  unfold Does
  rw [run_bind, run_get, carryOut, grant]
  simp only
  split
  · unfold symbolAt
    cases info.stop <;> rfl
  · rfl

/-! ## Readings -/

/-- What is known inside a declaration that is looked up. -/
theorem Consistent.known (h : Consistent c a) {k : Handle}
    (hid : k.find c.classes a.symbols = some id)
    (className : String) : Known c ⟨some k, className⟩ ⟨some id, className⟩ a :=
  ⟨h, rfl, fun k' hk' => ⟨id, rfl, by cases hk'; exact hid⟩, fun hnone => by cases hnone⟩

/-- A class or interface is looked up, its supertypes are noted, and what stands below it is read in
it. -/
theorem does_type {kind : SymbolKind} (ha : Consistent c a)
    (hbelow : ∀ name id a', Known c ⟨some (.ofClass name), name⟩ ⟨some id, name⟩ a' →
      Does c (visitAll c ⟨some id, name⟩ cs) (below name) a') :
    Does c (do let id ← enterType c kind t; visitAll c ⟨some id, (← get).registry.fullName id⟩ cs)
      (attempt (textOf (t.first? .identifier)) fun short =>
        attempt (lookUp c.full short) fun name =>
        .enter (.ofClass name) :: attempt (supertypes kind t) fun types =>
        types.flatMap (inheriting c.full name) ++ below name) a := by
  simp only [enterType, classOf, bind_assoc, pure_bind]
  refine does_textOf fun short => does_attempt fun name _ => ?_
  refine does_enter (h := .ofClass name) rfl fun id hid => does_attempt fun types _ => ?_
  have hkeeps := (stable_consistent c).keeps_inherit id
  refine Does.bind (Does.forM hkeeps (fun type a' ha' => does_inherit type ha' hid) types ha)
    (keeps_forM types hkeeps) ha fun a' ha' => ?_
  unfold Does
  rw [run_bind, run_get]
  simp only [ha'.classes.fullName hid]
  exact hbelow name id a' (ha'.known (k := .ofClass name) hid name)

/-- A method is looked up, it is noted on the symbol around it, its types are referred to, and what
stands below it is read in it. -/
theorem does_method (ha : Known c w s a)
    (hbelow : ∀ name id a', Known c ⟨some (.ofSymbol name), w.className⟩ ⟨some id, w.className⟩ a' →
      Does c (visitAll c ⟨some id, w.className⟩ cs) (below name) a') :
    Does c (do let id ← enterMethod c s t; visitAll c { s with symbol := some id } cs)
      (attempt (signatureOf c.full t) fun key =>
        attempt (lookUp c.full key) fun name =>
        .enter (.ofSymbol name) :: .depend w.owner name :: attempt (methodTypes t) fun types =>
        types.flatMap (referring c.full (some (.ofSymbol name)) w.className) ++ below name) a := by
  obtain ⟨ha, hs⟩ := ha
  simp only [enterMethod, methodOf, bind_assoc, pure_bind, hs.className]
  refine does_attempt fun key _ => does_attempt fun name _ => ?_
  unfold Does
  rw [run_bind, run_get]
  refine does_enter (h := .ofSymbol name) rfl fun id hid => ?_
  unfold Does
  rw [run_bind, run_get]
  simp only [ha.symbols.fullName hid]
  -- The method is found wherever the reading of it comes to: names are never given to other
  -- symbols.
  have hstable := stable_known c ⟨some (.ofSymbol name), w.className⟩ ⟨some id, w.className⟩
  have hdepend : Does c (depend s.symbol name) [.depend w.owner name] a := does_depend name hs.find
  refine hdepend.bind (hstable.keeps_depend _ _) (ha.known (k := .ofSymbol name) hid w.className)
    fun a₁ ha₁ => ?_
  refine does_attempt fun types _ => ?_
  have hkeeps := hstable.keeps_refer (some id) w.className
  have hrefer : ∀ type a', Known c ⟨some (.ofSymbol name), w.className⟩ ⟨some id, w.className⟩ a' →
      Does c (refer c (some id) w.className type)
        (referring c.full (some (.ofSymbol name)) w.className type) a' :=
    fun type a' ha' => does_refer (w := ⟨some (.ofSymbol name), w.className⟩)
      (s := ⟨some id, w.className⟩)
      w.className type ha'.2
  have htypes := Does.forM hkeeps hrefer types ha₁
  exact htypes.bind (keeps_forM types hkeeps) ha₁ fun a₂ ha₂ => hbelow name id a₂ ha₂

mutual

/-- **A reading of a tree carries out its requests**, one after the other, until one is refused. -/
theorem visit_eq_carryOut : ∀ (t : ParseTree) {w : Place} {s : Surroundings} {a : Analysis},
    Known c w s a →
    Does c (visit c s t) (script c.full w t) a
  | .token _, _, _, _, _ | .skipped _, _, _, _, _ | .missing _, _, _, _, _ => rfl
  | .node info cs, w, s, a, ha => by
    rw [visit, script]
    cases Role.ofForm info.form with
    | package => exact does_textOf fun _ => rfl
    | «import» => exact does_addImport info _ a
    | type kind => exact does_type ha.1 fun name id a' ha' => visitAll_eq_carryOut cs ha'
    | method => exact does_method ha fun name id a' ha' => visitAll_eq_carryOut cs ha'
    | field =>
      rw [ha.2.className]
      exact does_textOf fun type => does_refer w.className type ha.2
    | other => exact visitAll_eq_carryOut cs ha

theorem visitAll_eq_carryOut : ∀ (ts : List ParseTree) {w : Place} {s : Surroundings}
    {a : Analysis}, Known c w s a →
    Does c (visitAll c s ts) (scriptAll c.full w ts) a
  | [], _, _, _, _ => rfl
  | t :: ts, w, s, a, ha => by
    rw [visitAll, scriptAll]
    exact (visit_eq_carryOut t ha).bind (visit_keeps (stable_known c w s) s t) ha
      fun a' ha' => visitAll_eq_carryOut ts ha'

end

/-- A reading of a file starts outside every declaration. -/
theorem Consistent.visit_eq (h : Consistent c a) (tree : ParseTree) :
    (visit c {} tree).run.run a = carryOut c (script c.full {} tree) a :=
  visit_eq_carryOut tree ⟨h, rfl, (fun _ hk => by cases hk), fun _ => rfl⟩

end Analyze

end Coupling.Project
