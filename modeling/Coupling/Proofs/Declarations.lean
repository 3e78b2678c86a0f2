import Coupling.Proofs.Registry
import Coupling.Proofs.Steps
import Coupling.Proofs.Table
import Coupling.Project.Collector

/-!
# Declarations of a file

A collection goes through a tree from top to bottom and takes note of its package, its imports and
its declarations. Which these are, in which order, and in which symbol each is declared can be read
off the tree alone, for the numbers of the symbols follow the order of the declarations: that is the
outline of a tree (`outline`), and reading a tree is to take the items of its outline one after the
other (`visit_eq`).

What a declaration does is said once (`take_declaration`); what a whole reading does follows by
induction over the outline: which names stand for what after it, and which symbols stand under which
names.
-/

namespace Coupling.Project

open Java (ParseTree NodeInfo)

/-! ## Outlines -/

/-- A class, interface or method declaration: its node, the symbol it is declared in, and its own
number. -/
structure Declaration where
  kind : SymbolKind
  info : NodeInfo
  parts : List ParseTree
  scope : Option SymbolId
  id : SymbolId
deriving Inhabited

def Declaration.node (d : Declaration) : ParseTree := .node d.info d.parts

/-- What a collection takes note of. -/
inductive Item where
  | package (t : ParseTree)
  | «import» (t : ParseTree)
  | declaration (d : Declaration)
deriving Inhabited

/-- The declaration that an item is. -/
def Item.declaration? : Item → Option Declaration
  | .declaration d => some d
  | _ => none

/-- The declarations among items. -/
def declarations (items : List Item) : List Declaration := items.filterMap Item.declaration?

mutual

/-- The items of a tree in a scope. The declarations are numbered in order, from `next` on. -/
def outline (scope : Option SymbolId) (next : Nat) : ParseTree → List Item
  | .node info cs =>
    match Role.ofForm info.form with
    | .package => [.package (.node info cs)]
    | .import => [.import (.node info cs)]
    | .type kind => .declaration ⟨kind, info, cs, scope, next⟩ ::
      outlineOf (some next) (next + 1) cs
    | .method => .declaration ⟨.method, info, cs, scope, next⟩ ::
      outlineOf (some next) (next + 1) cs
    | .field => outlineOf scope next cs
    | .other => outlineOf scope next cs
  | _ => []

def outlineOf (scope : Option SymbolId) (next : Nat) : List ParseTree → List Item
  | [] => []
  | t :: ts => outline scope next t ++
    outlineOf scope (next + (declarations (outline scope next t)).length) ts

end

namespace Collect

/-- Takes note of an item. -/
def take (file source : String) : Item → Collect Unit
  | .package t => enterPackage t
  | .import t => addImport t
  | .declaration d => do
    let _ ← if d.kind = .method then addMethod file source d.scope d.info d.node
      else addClass file source d.kind d.scope d.info d.node

/-! ## Steps of a collection -/

variable {α β : Type} {c c' c'' : Collected}

theorem bind_eq_ok {x : Collect α} {f : α → Collect β} {b : β} :
    (x >>= f).run c = .ok (b, c'') ↔ ∃ a c', x.run c = .ok (a, c') ∧
    (f a).run c' = .ok (b, c'') := by
  rw [StateT.run_bind]
  cases hx : x.run c with
  | error e =>
    constructor
    · intro h
      cases h
    · rintro ⟨a, c', h, _⟩
      cases h
  | ok r =>
    obtain ⟨a, c'⟩ := r
    constructor
    · intro h
      exact ⟨a, c', rfl, h⟩
    · rintro ⟨a', c₁, h, hf⟩
      cases h
      exact hf

theorem need_eq_ok {property : String} {part : Option α} {a : α} :
    (need property part : Collect α).run c = .ok (a, c') ↔ part = some a ∧ c' = c := by
  cases part with
  | none =>
    constructor
    · intro h
      cases h
    · rintro ⟨h, _⟩
      cases h
  | some b =>
    constructor
    · intro h
      cases h
      exact ⟨rfl, rfl⟩
    · rintro ⟨h, rfl⟩
      cases h
      rfl

theorem textOf_eq_ok {part : Option ParseTree} {text : String}
    (h : (textOf part : Collect String).run c = .ok (text, c')) :
    (∃ t, part = some t ∧ t.text = text) ∧ c' = c := by
  unfold textOf at h
  obtain ⟨t, c₁, ht, h₁⟩ := bind_eq_ok.mp h
  obtain ⟨hpart, rfl⟩ := need_eq_ok.mp ht
  cases h₁
  exact ⟨⟨t, hpart, rfl⟩, rfl⟩

theorem liftExcept_eq_ok {x : Except Fault α} {a : α}
    (h : (liftExcept x : Collect α).run c = .ok (a, c')) : x = .ok a ∧ c' = c := by
  cases x with
  | error e => cases h
  | ok b =>
    cases h
    exact ⟨rfl, rfl⟩

/-- A symbol that nothing has been added to. -/
structure IsNew (s : Symbol) : Prop where
  dependency : s.dependency = []
  hierarchy : s.hierarchy = []
  methods : s.methods = ∅

theorem symbolAt_eq_ok {file source : String} {kind : SymbolKind} {short full : String}
    {info : NodeInfo} {s : Symbol}
    (h : (symbolAt file source kind short full info : Collect Symbol).run c = .ok (s, c')) :
    (s.kind = kind ∧ s.shortName = short ∧ s.fullName = full ∧ IsNew s) ∧
      (s.startLine = info.start.start.line ∧ info.stop.map (·.start.line) = some s.stopLine) ∧
      c' = c := by
  unfold symbolAt at h
  obtain ⟨last, c₁, hlast, h₁⟩ := bind_eq_ok.mp h
  obtain ⟨hstop, rfl⟩ := need_eq_ok.mp hlast
  cases h₁
  exact ⟨⟨rfl, rfl, rfl, ⟨rfl, rfl, rfl⟩⟩, ⟨rfl, by rw [hstop]; rfl⟩, rfl⟩

end Collect

/-! ## What an item does -/

/-- What is known of a file with one declaration more. -/
def Collected.declare (d : Declaration) (s : Symbol) (c : Collected) : Collected :=
  { c with
    registry := match d.kind, d.scope with
      | .method, some owner =>
        (c.registry.add s).change owner fun o =>
          { o with methods := o.methods.put s.fullName c.registry.size }
      | _, _ => c.registry.add s
    classes := if d.kind = .method then c.classes else c.classes.put s.fullName c.registry.size
    symbols := c.symbols.put s.fullName c.registry.size
    full := c.full.put s.shortName s.fullName }

theorem Collected.declare_type {d : Declaration} (h : d.kind ≠ .method) (s : Symbol)
    (c : Collected) :
    c.declare d s = { c with
      registry := c.registry.add s
      classes := c.classes.put s.fullName c.registry.size
      symbols := c.symbols.put s.fullName c.registry.size
      full := c.full.put s.shortName s.fullName } := by
  unfold Collected.declare
  rw [if_neg h]
  split
  · next hkind _ => exact absurd hkind h
  · rfl

theorem Collected.declare_method {d : Declaration} {owner : SymbolId} (h : d.kind = .method)
    (hscope : d.scope = some owner) (s : Symbol) (c : Collected) :
    c.declare d s = { c with
      registry := (c.registry.add s).change owner fun o =>
        { o with methods := o.methods.put s.fullName c.registry.size }
      symbols := c.symbols.put s.fullName c.registry.size
      full := c.full.put s.shortName s.fullName } := by
  unfold Collected.declare
  rw [h, hscope, if_pos rfl]

/-- A symbol has the kind of a declaration and stands in its lines. -/
structure Symbol.IsOf (s : Symbol) (d : Declaration) : Prop where
  kind : s.kind = d.kind
  start : s.startLine = d.info.start.start.line
  stop : d.info.stop.map (·.start.line) = some s.stopLine

/-- The symbol that a declaration is given. A class or interface is known by its simple name, a
method by its signature, and the full name is made from the symbol around it. -/
structure Describes (c : Collected) (d : Declaration) (s : Symbol) : Prop where
  new : Collect.IsNew s
  isOf : s.IsOf d
  fullName : s.fullName = nameIn c.package (d.scope.map c.registry.fullName) s.shortName
  typeName : d.kind ≠ .method → ∃ n, d.node.first? .identifier = some n ∧ n.text = s.shortName
  signature : d.kind = .method → signatureOf c.full d.node = .ok s.shortName
  inScope : d.kind = .method → d.scope.isSome

namespace Collect

variable {c c' : Collected} {file source : String}

variable {d : Declaration} {id : SymbolId} {t : ParseTree} {items : List Item}

/-- A class or interface becomes a symbol and a class. -/
theorem addClass_eq_ok (hkind : d.kind ≠ .method)
    (h : (addClass file source d.kind d.scope d.info d.node).run c = .ok (id, c')) :
    ∃ s, Describes c d s ∧ id = c.registry.size ∧ c' = c.declare d s := by
  unfold addClass at h
  obtain ⟨name, c₁, hname, h₁⟩ := bind_eq_ok.mp h
  obtain ⟨⟨n, hn, hnname⟩, rfl⟩ := textOf_eq_ok hname
  obtain ⟨full, c₂, hfull, h₂⟩ := bind_eq_ok.mp h₁
  cases hfull
  obtain ⟨s, c₃, hs, h₃⟩ := bind_eq_ok.mp h₂
  obtain ⟨⟨hk, hshort, hsfull, hnew⟩, ⟨hstart, hstop⟩, rfl⟩ := symbolAt_eq_ok hs
  cases h₃
  refine ⟨s, ⟨hnew, ⟨hk, hstart, hstop⟩, ?_, fun _ => ⟨n, hn, ?_⟩, fun h => absurd h hkind, fun h =>
    absurd h hkind⟩, rfl, ?_⟩
  · rw [hsfull, hshort]
  · rw [hnname, hshort]
  · rw [Collected.declare_type hkind, hsfull, hshort]

/-- A method becomes a symbol and one of the methods of the symbol around it. -/
theorem addMethod_eq_ok (hkind : d.kind = .method)
    (h : (addMethod file source d.scope d.info d.node).run c = .ok (id, c')) :
    ∃ s, Describes c d s ∧ id = c.registry.size ∧ c' = c.declare d s := by
  unfold addMethod at h
  obtain ⟨c₀, c₁, hget, h₁⟩ := bind_eq_ok.mp h
  cases hget
  obtain ⟨name, c₂, hname, h₂⟩ := bind_eq_ok.mp h₁
  obtain ⟨hsig, rfl⟩ := liftExcept_eq_ok hname
  obtain ⟨params, c₃, hparams, h₃⟩ := bind_eq_ok.mp h₂
  obtain ⟨-, rfl⟩ := liftExcept_eq_ok hparams
  obtain ⟨full, c₄, hfull, h₄⟩ := bind_eq_ok.mp h₃
  cases hfull
  obtain ⟨s, c₅, hs, h₅⟩ := bind_eq_ok.mp h₄
  obtain ⟨⟨hk, hshort, hsfull, hnew⟩, ⟨hstart, hstop⟩, rfl⟩ := symbolAt_eq_ok hs
  obtain ⟨id', c₆, hid, h₆⟩ := bind_eq_ok.mp h₅
  cases hid
  obtain ⟨type, c₇, htype, h₇⟩ := bind_eq_ok.mp h₆
  obtain ⟨-, rfl⟩ := textOf_eq_ok htype
  obtain ⟨c₈, c₉, hget', h₈⟩ := bind_eq_ok.mp h₇
  cases hget'
  obtain ⟨⟨⟩, c₁₀, hreturn, h₉⟩ := bind_eq_ok.mp h₈
  cases hreturn
  obtain ⟨⟨⟩, c₁₁, hbind, h₁₀⟩ := bind_eq_ok.mp h₉
  cases hbind
  obtain ⟨owner, c₁₂, howner, h₁₁⟩ := bind_eq_ok.mp h₁₀
  obtain ⟨hscope, rfl⟩ := need_eq_ok.mp howner
  cases h₁₁
  refine ⟨{ s with params, returnType := resolve c₅.full type }, ⟨?_, ?_, ?_, ?_, ?_, ?_⟩, rfl, ?_⟩
  · exact ⟨hnew.dependency, hnew.hierarchy, hnew.methods⟩
  · exact ⟨hk.trans hkind.symm, hstart, hstop⟩
  · rw [hsfull, hshort]
  · exact fun h => absurd hkind h
  · intro _
    rw [hsig, hshort]
  · intro _
    rw [hscope]
    rfl
  · rw [Collected.declare_method hkind hscope, hsfull, hshort]
    simp only [Registry.change_add_self]

/-- What a declaration does: a symbol that describes it is added. -/
theorem take_declaration (h : (take file source (.declaration d)).run c = .ok ((), c')) :
    ∃ s, Describes c d s ∧ c' = c.declare d s := by
  simp only [take] at h
  split at h
  · next hkind =>
    obtain ⟨id, c₁, hadd, h₁⟩ := bind_eq_ok.mp h
    cases h₁
    obtain ⟨s, hs, -, hc⟩ := addMethod_eq_ok hkind hadd
    exact ⟨s, hs, hc⟩
  · next hkind =>
    obtain ⟨id, c₁, hadd, h₁⟩ := bind_eq_ok.mp h
    cases h₁
    obtain ⟨s, hs, -, hc⟩ := addClass_eq_ok hkind hadd
    exact ⟨s, hs, hc⟩

theorem take_package (h : (take file source (.package t)).run c = .ok ((), c')) :
    ∃ name, c' = { c with package := name, full := c.full.update javaLang } := by
  unfold take enterPackage at h
  obtain ⟨name, c₁, hname, h₁⟩ := bind_eq_ok.mp h
  obtain ⟨-, rfl⟩ := textOf_eq_ok hname
  cases h₁
  exact ⟨name, rfl⟩

/-- The name that an import declaration imports. -/
def importedName (t : ParseTree) : String := ((t.first? .qualifiedName).map ParseTree.text).getD ""

theorem take_import (h : (take file source (.import t)).run c = .ok ((), c')) :
    c' = { c with full := c.full.put (Text.afterLast (importedName t) '.') (importedName t) } := by
  unfold take addImport at h
  obtain ⟨name, c₁, hname, h₁⟩ := bind_eq_ok.mp h
  obtain ⟨⟨q, hq, rfl⟩, rfl⟩ := textOf_eq_ok hname
  unfold importedName
  rw [hq]
  simp only at h₁
  split at h₁
  · obtain ⟨_, _, hthrow, _⟩ := bind_eq_ok.mp h₁
    cases hthrow
  · split at h₁
    · obtain ⟨_, _, hthrow, _⟩ := bind_eq_ok.mp h₁
      cases hthrow
    · cases h₁
      rfl

/-! ## Readings follow the outline -/

theorem size_declare (d : Declaration) (s : Symbol) (c : Collected) :
    (c.declare d s).registry.size = c.registry.size + 1 := by
  unfold Collected.declare
  simp only
  split
  · rw [Registry.size_change, Registry.size_add]
  · exact Registry.size_add ..

theorem takeAll_cons_eq_ok {item : Item} {c'' : Collected}
    (h : ((item :: items).forM (take file source)).run c = .ok ((), c'')) :
    ∃ c', (take file source item).run c = .ok ((), c') ∧
      (items.forM (take file source)).run c' = .ok ((), c'') := by
  obtain ⟨⟨⟩, c', h₁, h₂⟩ := bind_eq_ok.mp h
  exact ⟨c', h₁, h₂⟩

/-- A reading gives as many numbers as there are declarations. -/
theorem size_takeAll (h : (items.forM (take file source)).run c = .ok ((), c')) :
    c'.registry.size = c.registry.size + (declarations items).length := by
  induction items generalizing c with
  | nil =>
    cases h
    rfl
  | cons item items ih =>
    obtain ⟨c₁, h₁, h₂⟩ := takeAll_cons_eq_ok h
    rw [ih h₂]
    cases item with
    | package t =>
      obtain ⟨name, rfl⟩ := take_package h₁
      rfl
    | «import» t =>
      rw [take_import h₁]
      rfl
    | declaration d =>
      obtain ⟨s, -, rfl⟩ := take_declaration h₁
      rw [size_declare]
      show _ = c.registry.size + ((declarations items).length + 1)
      omega

/-- Two continuations that agree where the first part ends. -/
theorem run_bind_congr {α β : Type} {x : Collect α} {f g : α → Collect β}
    (h : ∀ a c', x.run c = .ok (a, c') → (f a).run c' = (g a).run c') :
    (x >>= f).run c = (x >>= g).run c := by
  rw [StateT.run_bind, StateT.run_bind]
  cases hx : x.run c with
  | error e => rfl
  | ok r => exact h r.1 r.2 hx

theorem kind_ne_method {info : NodeInfo} {kind : SymbolKind}
    (h : Role.ofForm info.form = .type kind) :
    kind ≠ .method := by
  rintro rfl
  cases hf : info.form with
  | expr e =>
    rw [hf] at h
    cases h
  | rule r =>
    rw [hf] at h
    cases r <;> cases h

mutual

/-- Reading a tree is to take the items of its outline. -/
theorem visit_eq (file source : String) : ∀ (t : ParseTree) (scope : Option SymbolId)
    (c : Collected),
    (visit file source scope t).run c =
      ((outline scope c.registry.size t).forM (take file source)).run c
  | .token _, _, _ | .skipped _, _, _ | .missing _, _, _ => rfl
  | .node info cs, scope, c => by
    rw [visit, outline]
    cases hrole : Role.ofForm info.form with
    | package | «import» => exact congrArg (StateT.run · c) bind_pure_unit.symm
    | type kind =>
      let d : Declaration := ⟨kind, info, cs, scope, c.registry.size⟩
      have hkind : d.kind ≠ .method := kind_ne_method hrole
      show _ = (take file source (.declaration d) >>= fun _ => _).run c
      simp only [take, if_neg hkind, bind_assoc, pure_bind]
      -- The class gets the number at which its outline stands, and what is below it is numbered
      -- from the next one on.
      refine run_bind_congr fun id c₁ hadd => ?_
      obtain ⟨s, -, rfl, rfl⟩ := addClass_eq_ok hkind hadd
      rw [visitAll_eq file source cs, size_declare]
    | method =>
      let d : Declaration := ⟨.method, info, cs, scope, c.registry.size⟩
      show _ = (take file source (.declaration d) >>= fun _ => _).run c
      simp only [take, d, if_true, bind_assoc, pure_bind]
      refine run_bind_congr fun id c₁ hadd => ?_
      obtain ⟨s, -, rfl, rfl⟩ := addMethod_eq_ok (d := d) rfl hadd
      rw [visitAll_eq file source cs, size_declare]
    | field | other => exact visitAll_eq file source cs scope c

theorem visitAll_eq (file source : String) : ∀ (ts : List ParseTree) (scope : Option SymbolId)
    (c : Collected),
    (visitAll file source scope ts).run c =
      ((outlineOf scope c.registry.size ts).forM (take file source)).run c
  | [], _, _ => rfl
  | t :: ts, scope, c => by
    have happend : (outline scope c.registry.size t ++ outlineOf scope
        (c.registry.size + (declarations (outline scope c.registry.size t)).length) ts).forM
          (take file source) =
        ((outline scope c.registry.size t).forM (take file source) >>= fun _ => (outlineOf scope
          (c.registry.size + (declarations (outline scope c.registry.size t)).length) ts).forM
            (take file source)) :=
      List.forM_append
    rw [visitAll, outlineOf, happend, StateT.run_bind, StateT.run_bind, visit_eq file source t]
    cases htake : ((outline scope c.registry.size t).forM (take file source)).run c with
    | error e => rfl
    | ok r =>
      show (visitAll file source scope ts).run r.2 = _
      rw [visitAll_eq file source ts, size_takeAll htake]
      rfl

end

end Collect

end Coupling.Project
