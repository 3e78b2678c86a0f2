import Coupling.Proofs.FileOrder
import Coupling.Proofs.Spelling

/-!
# Reading a file once more

Every reading of a tree takes the same items; only the numbers of the declarations go on
(`outline_later`). The symbol that a declaration is given can be told from its node, from what the
simple names in its types stand for then, and from the name of the symbol around it
(`Declaration.symbol`), and whether it can be given does not depend on these. So a tree that was
read can be read again (`visit_again`).

In two readings a declaration has the same full name if it, and what it is declared in, has the same
simple name in both (`fullName_twin`).
-/

namespace Coupling.Project

open Java (ParseTree NodeInfo)

/-! ## Outlines with later numbers -/

/-- The same declaration with later numbers. -/
def Declaration.later (k : Nat) (d : Declaration) : Declaration :=
  { d with scope := d.scope.map (· + k), id := d.id + k }

def Item.later (k : Nat) : Item → Item
  | .declaration d => .declaration (d.later k)
  | item => item

theorem declarations_later (k : Nat) (items : List Item) :
    declarations (items.map (Item.later k)) = (declarations items).map (Declaration.later k) := by
  induction items with
  | nil => rfl
  | cons item items ih =>
    cases item with
    | package t | «import» t => exact ih
    | declaration d => exact congrArg (d.later k :: ·) ih

mutual

/-- The numbers of an outline go on from where it starts. -/
theorem outline_later (k : Nat) : ∀ (t : ParseTree) (scope : Option SymbolId) (next : Nat),
    outline (scope.map (· + k)) (next + k) t = (outline scope next t).map (Item.later k)
  | .token _, _, _ | .skipped _, _, _ | .missing _, _, _ => rfl
  | .node info cs, scope, next => by
    have hbelow : outlineOf (some (next + k)) (next + k + 1) cs =
        (outlineOf (some next) (next + 1) cs).map (Item.later k) := by
      rw [Nat.add_right_comm]
      exact outlineOf_later k cs (some next) (next + 1)
    rw [outline, outline]
    cases Role.ofForm info.form with
    | package | «import» => rfl
    | type kind | method => exact congrArg (_ :: ·) hbelow
    | field | other => exact outlineOf_later k cs scope next

theorem outlineOf_later (k : Nat) : ∀ (ts : List ParseTree) (scope : Option SymbolId) (next : Nat),
    outlineOf (scope.map (· + k)) (next + k) ts = (outlineOf scope next ts).map (Item.later k)
  | [], _, _ => rfl
  | t :: ts, scope, next => by
    rw [outlineOf, outlineOf, List.map_append, outline_later k t, declarations_later,
      List.length_map, Nat.add_right_comm, outlineOf_later k ts]

end

/-- The declarations of a tree, numbered from zero. -/
def declared (tree : ParseTree) : List Declaration := declarations (outline none 0 tree)

/-- The package and import declarations of a tree. -/
def heads (tree : ParseTree) : List Item := (outline none 0 tree).filter Item.isHead

theorem outline_eq_later (k : Nat) (tree : ParseTree) :
    outline none k tree = (outline none 0 tree).map (Item.later k) := by
  rw [← outline_later, Nat.zero_add]
  rfl

theorem declarations_outline (k : Nat) (tree : ParseTree) :
    declarations (outline none k tree) = (declared tree).map (Declaration.later k) := by
  rw [outline_eq_later, declarations_later]
  rfl

variable {items : List Item} {d : Declaration} {parts : String × Option (List String)}
  {full full' : Table String}

/-- What stands first in a sorted list is what is filtered out of it. -/
theorem sorted_items (h : (items.map Item.isHead).Pairwise fun a b => b = true → a = true) :
    items = items.filter Item.isHead ++ (declarations items).map Item.declaration := by
  induction items with
  | nil => rfl
  | cons item items ih =>
    rw [List.map_cons, List.pairwise_cons] at h
    have hrest := ih h.2
    cases item with
    | package t | «import» t => exact congrArg (_ :: ·) hrest
    | declaration d =>
      have hnone : items.filter Item.isHead = [] := by
        refine List.filter_eq_nil_iff.mpr fun item hitem hhead => ?_
        exact absurd (h.1 _ (List.mem_map_of_mem hitem) hhead) Bool.false_ne_true
      rw [hnone] at hrest
      rw [List.filter_cons_of_neg Bool.false_ne_true, hnone]
      exact congrArg (_ :: ·) hrest

variable {tree : ParseTree}

/-- A tree whose head declarations come first is read heads first, with whatever numbers. -/
theorem outline_eq_heads (h : HeadsFirst tree) (k : Nat) :
    outline none k tree = heads tree ++ ((declared tree).map (Declaration.later k)).map
      Item.declaration := by
  have hsorted := sorted_items (List.Pairwise.sublist (outline_sublist tree none 0) h)
  have hheads : (heads tree).map (Item.later k) = heads tree := by
    refine (List.map_congr_left fun item hitem => ?_).trans (List.map_id _)
    have hhead := (List.mem_filter.mp hitem).2
    cases item with
    | declaration d => cases hhead
    | _ => rfl
  rw [outline_eq_later, hsorted, List.map_append, List.map_map, List.map_map]
  exact congrArg₂ _ hheads rfl

theorem declared_ordered (tree : ParseTree) : Ordered 0 0 (outline none 0 tree) :=
  outline_ordered tree (Nat.le_refl 0) fun _ ho => by cases ho

theorem id_lt_declared (hd : d ∈ declared tree) : d.id < (declared tree).length :=
  Nat.lt_of_lt_of_eq ((declared_ordered tree).id_range hd).2 (Nat.zero_add _)

/-- A declaration that stands in another one comes after it. -/
theorem exists_declared_scope (hd : d ∈ declared tree) {o : SymbolId} (ho : d.scope = some o) :
    ∃ e ∈ declared tree, e.id = o ∧ o < d.id := by
  have hlt := ((declared_ordered tree).scope_lt hd ho).2
  obtain ⟨e, he, hid⟩ := (declared_ordered tree).exists_of_id (Nat.zero_le o)
    (Nat.lt_trans hlt ((declared_ordered tree).id_range hd).2)
  exact ⟨e, he, hid, hlt⟩

/-! ## The symbol of a declaration -/

/-- The name of a method and, if it has a list of parameters, the types of those that are not
variadic. -/
def signatureParts (t : ParseTree) : Except Fault (String × Option (List String)) := do
  let name ← textOf (t.first? .identifier)
  match ← parametersOf t with
  | none => return (name, none)
  | some ps => return (name, some (← ps.mapM fun p => textOf (p.first? .typeType)))

/-- A method's name with its types, where simple names stand for `full`. -/
def signed (full : Table String) (parts : String × Option (List String)) : String :=
  match parts.2 with
  | none => parts.1
  | some types => signature parts.1 (types.map (resolve full))

theorem mapM_resolve (full : Table String) (ps : List ParseTree) :
    (ps.mapM fun p => do return resolve full (← textOf (p.first? .typeType)) :
        Except Fault (List String)) =
        (ps.mapM fun p => textOf (p.first? .typeType) : Except Fault (List String)).map
        (List.map (resolve full)) := by
  induction ps with
  | nil => rfl
  | cons p ps ih =>
    rw [List.mapM_cons, List.mapM_cons, ih]
    cases (textOf (p.first? .typeType) : Except Fault String) with
    | error fault => rfl
    | ok type =>
      cases (ps.mapM fun p => textOf (p.first? .typeType) : Except Fault (List String)) with
      | error fault | ok types => rfl

theorem signatureOf_eq (full : Table String) (t : ParseTree) :
    signatureOf full t = (signatureParts t).map (signed full) := by
  unfold signatureOf signatureParts
  cases (textOf (t.first? .identifier) : Except Fault String) with
  | error fault => rfl
  | ok name =>
    cases (parametersOf t : Except Fault (Option (List ParseTree))) with
    | error fault => rfl
    | ok params =>
      cases params with
      | none => rfl
      | some ps =>
        show ((ps.mapM fun p => do return resolve full (← textOf (p.first? .typeType)) :
          Except Fault (List String)) >>=
          fun types => pure (signature name types)) = _
        rw [mapM_resolve]
        show _ = ((ps.mapM fun p => textOf (p.first? .typeType) : Except Fault (List String)) >>=
            fun types =>
          pure (name, some types)).map (signed full)
        cases (ps.mapM fun p => textOf (p.first? .typeType) : Except Fault (List String)) with
        | error fault | ok types => rfl

/-- The symbol that a declaration is given, where simple names stand for `full`, in a package and in
a symbol with the name `outer`, if there is one around it. -/
def Declaration.symbol (file source : String) (full : Table String) (package : String)
    (outer : Option String) (d : Declaration) : Except Fault Symbol :=
  if d.kind = .method then do
    let name ← signatureOf full d.node
    let params ← parameterNames d.node
    let s ← symbolAt file source .method name (nameIn package outer name) d.info
    let type ← textOf (d.node.first? .typeTypeOrVoid)
    let _ ← need "methods" outer
    return { s with params, returnType := resolve full type }
  else do
    let name ← textOf (d.node.first? .identifier)
    symbolAt file source d.kind name (nameIn package outer name) d.info

/-- The pieces that the types of a method are cut into. -/
def typePieces (t : ParseTree) : List String :=
  ((methodTypes t).toOption.getD []).flatMap fun type => (TypeText.ofText type).pieces

theorem methodTypes_of_parts {t type : ParseTree} (hparts : signatureParts t = .ok parts)
    (htype : t.first? .typeTypeOrVoid = some type) :
    methodTypes t = .ok (type.text :: parts.2.getD []) := by
  unfold signatureParts at hparts
  obtain ⟨name, -, h₁⟩ := Steps.except_bind_eq_ok.mp hparts
  obtain ⟨params, hparams, h₂⟩ := Steps.except_bind_eq_ok.mp h₁
  unfold methodTypes
  rw [htype, hparams]
  cases params with
  | none =>
    cases h₂
    rfl
  | some ps =>
    obtain ⟨types, htypes, h₃⟩ := Steps.except_bind_eq_ok.mp h₂
    cases h₃
    show ((ps.mapM fun p => textOf (p.first? .typeType) : Except Fault (List String)) >>=
        fun types =>
      pure (type.text :: types)) = _
    rw [htypes]
    rfl

theorem resolve_congr {type : String} (h : ∀ w ∈ (TypeText.ofText type).pieces,
    full.get? w = full'.get? w) :
    resolve full type = resolve full' type := by
  unfold resolve
  congr 1
  refine List.map_congr_left fun w hw => ?_
  rw [expand, expand, Table.getD, Table.getD, h w hw]

theorem signed_congr (h : ∀ type ∈ parts.2.getD [], resolve full type = resolve full' type) :
    signed full parts = signed full' parts := by
  obtain ⟨name, _ | types⟩ := parts
  · rfl
  · exact congrArg (signature name) (List.map_congr_left h)

namespace Declaration

variable {file source package package' : String} {full full' : Table String}
  {outer outer' : Option String}
  {d : Declaration} {s : Symbol}

/-- The symbol of a class or interface. -/
theorem symbol_type_eq_ok (hkind : d.kind ≠ .method) :
    d.symbol file source full package outer = .ok s ↔ ∃ n last, d.node.first? .identifier = some n ∧
      d.info.stop = some last ∧ s = {
        kind := d.kind, shortName := n.text, fullName := nameIn package outer n.text, file,
        startLine := d.info.start.start.line, stopLine := last.start.line,
        code := codeOf source d.info last } := by
  unfold symbol
  rw [if_neg hkind]
  constructor
  · intro h
    obtain ⟨name, hname, h₁⟩ := Steps.except_bind_eq_ok.mp h
    obtain ⟨n, hn, rfl⟩ := exists_of_textOf hname
    obtain ⟨last, hlast, h₂⟩ := Steps.except_bind_eq_ok.mp h₁
    cases hstop : d.info.stop with
    | none =>
      rw [hstop] at hlast
      cases hlast
    | some last' =>
      rw [hstop] at hlast
      cases hlast
      cases h₂
      exact ⟨n, last, hn, rfl, rfl⟩
  · rintro ⟨n, last, hn, hstop, rfl⟩
    unfold symbolAt
    rw [hn, hstop]
    rfl

/-- The symbol of a method. -/
theorem symbol_method_eq_ok (hkind : d.kind = .method) :
    d.symbol file source full package outer = .ok s ↔ ∃ parts params last type,
      signatureParts d.node = .ok parts ∧
      parameterNames d.node = .ok params ∧ d.info.stop = some last ∧
      d.node.first? .typeTypeOrVoid = some type ∧
      outer.isSome = true ∧ s = {
        kind := .method, shortName := signed full parts, fullName :=
          nameIn package outer (signed full parts), file,
        startLine := d.info.start.start.line, stopLine := last.start.line, code :=
        codeOf source d.info last, params, returnType := resolve full type.text } := by
  unfold symbol
  rw [if_pos hkind, signatureOf_eq]
  constructor
  · intro h
    obtain ⟨name, hname, h₁⟩ := Steps.except_bind_eq_ok.mp h
    obtain ⟨params, hparams, h₂⟩ := Steps.except_bind_eq_ok.mp h₁
    obtain ⟨s', hs', h₃⟩ := Steps.except_bind_eq_ok.mp h₂
    obtain ⟨text, htext, h₄⟩ := Steps.except_bind_eq_ok.mp h₃
    obtain ⟨owner, howner, h₅⟩ := Steps.except_bind_eq_ok.mp h₄
    obtain ⟨type, htype, rfl⟩ := exists_of_textOf htext
    cases hparts : signatureParts d.node with
    | error fault =>
      rw [hparts] at hname
      cases hname
    | ok parts =>
      rw [hparts] at hname
      cases hname
      unfold symbolAt at hs'
      cases hstop : d.info.stop with
      | none =>
        rw [hstop] at hs'
        cases hs'
      | some last =>
        rw [hstop] at hs'
        cases hs'
        cases h₅
        refine ⟨parts, params, last, type, rfl, hparams, rfl, htype, ?_, rfl⟩
        cases outer with
        | none => cases howner
        | some name => rfl
  · rintro ⟨parts, params, last, type, hparts, hparams, hstop, htype, houter, rfl⟩
    obtain ⟨name, rfl⟩ := Option.isSome_iff_exists.mp houter
    unfold symbolAt
    rw [hparts, hparams, hstop, htype]
    rfl

variable (h : d.symbol file source full package outer = .ok s)
include h

/-- Whether a declaration can be given a symbol does not depend on what names stand for. -/
theorem exists_symbol (full' : Table String) (package' : String)
    (houter : outer'.isSome = outer.isSome) :
    ∃ s', d.symbol file source full' package' outer' = .ok s' := by
  by_cases hkind : d.kind = .method
  · obtain ⟨parts, params, last, type, hparts, hparams, hstop, htype, hsome, -⟩ :=
      (symbol_method_eq_ok hkind).mp h
    exact ⟨_, (symbol_method_eq_ok hkind).mpr
      ⟨parts, params, last, type, hparts, hparams, hstop, htype, houter.trans hsome, rfl⟩⟩
  · obtain ⟨n, last, hn, hstop, -⟩ := (symbol_type_eq_ok hkind).mp h
    exact ⟨_, (symbol_type_eq_ok hkind).mpr ⟨n, last, hn, hstop, rfl⟩⟩

/-- Only what the pieces of its types stand for has a say in the symbol of a method. -/
theorem symbol_congr (hsame : d.kind = .method → ∀ w ∈ typePieces d.node,
    full.get? w = full'.get? w) :
    d.symbol file source full' package outer = .ok s := by
  by_cases hkind : d.kind = .method
  · obtain ⟨parts, params, last, type, hparts, hparams, hstop, htype, hsome, rfl⟩ :=
      (symbol_method_eq_ok hkind).mp h
    have htypes : ∀ text ∈ type.text :: parts.2.getD [],
        resolve full text = resolve full' text := by
      intro text htext
      refine resolve_congr fun w hw => hsame hkind w ?_
      unfold typePieces
      rw [methodTypes_of_parts hparts htype]
      exact List.mem_flatMap.mpr ⟨text, htext, hw⟩
    obtain ⟨hresult, hparams'⟩ := List.forall_mem_cons.mp htypes
    rw [symbol_method_eq_ok hkind, hresult, signed_congr hparams']
    exact ⟨parts, params, last, type, hparts, hparams, hstop, htype, hsome, rfl⟩
  · rw [symbol_type_eq_ok hkind] at h ⊢
    exact h

theorem fullName_symbol : s.fullName = nameIn package outer s.shortName := by
  by_cases hkind : d.kind = .method
  · obtain ⟨parts, params, last, type, -, -, -, -, -, rfl⟩ := (symbol_method_eq_ok hkind).mp h
    rfl
  · obtain ⟨n, last, -, -, rfl⟩ := (symbol_type_eq_ok hkind).mp h
    rfl

/-- A method is known by its signature. -/
theorem signature_symbol (hkind : d.kind = .method) :
    signatureOf full d.node = .ok s.shortName := by
  obtain ⟨parts, params, last, type, hparts, -, -, -, -, rfl⟩ := (symbol_method_eq_ok hkind).mp h
  rw [signatureOf_eq, hparts]
  rfl

/-- The simple name does not depend on what is around. -/
theorem shortName_symbol {s' : Symbol} (h' : d.symbol file source full package' outer' = .ok s') :
    s.shortName = s'.shortName := by
  by_cases hkind : d.kind = .method
  · exact Except.ok.inj ((signature_symbol h hkind).symm.trans (signature_symbol h' hkind))
  · obtain ⟨n, last, hn, -, rfl⟩ := (symbol_type_eq_ok hkind).mp h
    obtain ⟨n', last', hn', -, rfl⟩ := (symbol_type_eq_ok hkind).mp h'
    rw [hn] at hn'
    cases hn'
    rfl

end Declaration

namespace Collect

variable {file source : String} {c c' : Collected}

/-- What a class or interface declaration does, faults included. -/
theorem run_addClass {d : Declaration} (hkind : d.kind ≠ .method) (c : Collected) :
    (addClass file source d.kind d.scope d.info d.node).run c =
      (d.symbol file source c.full c.package (d.scope.map c.registry.fullName)).map fun s =>
        (c.registry.size, c.declare d s) := by
  unfold addClass Declaration.symbol symbolAt
  rw [if_neg hkind]
  cases hname : d.node.first? .identifier with
  | none => rfl
  | some n =>
    cases hstop : d.info.stop with
    | none => rfl
    | some last =>
      refine congrArg Except.ok (congrArg (Prod.mk _) ?_)
      rw [Collected.declare_type hkind]

/-- What a method declaration does, faults included. -/
theorem run_addMethod {d : Declaration} (hkind : d.kind = .method) (c : Collected) :
    (addMethod file source d.scope d.info d.node).run c =
      (d.symbol file source c.full c.package (d.scope.map c.registry.fullName)).map fun s =>
        (c.registry.size, c.declare d s) := by
  unfold addMethod Declaration.symbol symbolAt
  rw [if_pos hkind]
  simp only [StateT.run_bind, StateT.run_get, pure_bind]
  cases hname : signatureOf c.full d.node with
  | error fault => rfl
  | ok name =>
    cases hparams : parameterNames d.node with
    | error fault => rfl
    | ok params =>
      cases hstop : d.info.stop with
      | none => rfl
      | some last =>
        cases htype : d.node.first? .typeTypeOrVoid with
        | none => rfl
        | some type =>
          cases hscope : d.scope with
          | none => rfl
          | some owner =>
            refine congrArg Except.ok (congrArg (Prod.mk _) ?_)
            rw [Collected.declare_method hkind hscope]
            simp only [Registry.change_add_self]

/-- What a declaration does, faults included. -/
theorem run_take_declaration (file source : String) (d : Declaration) (c : Collected) :
    (take file source (.declaration d)).run c =
      (d.symbol file source c.full c.package (d.scope.map c.registry.fullName)).map fun s =>
      ((), c.declare d s) := by
  simp only [take]
  split
  · next hkind =>
    rw [StateT.run_bind, run_addMethod hkind]
    cases d.symbol file source c.full c.package (d.scope.map c.registry.fullName) <;> rfl
  · next hkind =>
    rw [StateT.run_bind, run_addClass hkind]
    cases d.symbol file source c.full c.package (d.scope.map c.registry.fullName) <;> rfl

end Collect

/-! ## Reading again -/

namespace Collect

variable {file source : String} {c c' : Collected}

theorem take_declaration_eq_ok {d : Declaration}
    (h : (take file source (.declaration d)).run c = .ok ((), c')) :
    ∃ s, d.symbol file source c.full c.package (d.scope.map c.registry.fullName) = .ok s ∧
    c' = c.declare d s := by
  rw [run_take_declaration] at h
  cases hs : d.symbol file source c.full c.package (d.scope.map c.registry.fullName) with
  | error fault =>
    rw [hs] at h
    cases h
  | ok s =>
    rw [hs] at h
    cases h
    exact ⟨s, rfl, rfl⟩

theorem enterPackage_again {t : ParseTree} (h : (enterPackage t).run c = .ok ((), c'))
    (e : Collected) :
    ∃ e', (enterPackage t).run e = .ok ((), e') := by
  unfold enterPackage at h ⊢
  cases hname : t.first? .qualifiedName with
  | none =>
    rw [hname] at h
    cases h
  | some q => exact ⟨_, rfl⟩

theorem addImport_again {t : ParseTree} (h : (addImport t).run c = .ok ((), c')) (e : Collected) :
    ∃ e', (addImport t).run e = .ok ((), e') := by
  unfold addImport at h ⊢
  cases hname : t.first? .qualifiedName with
  | none =>
    rw [hname] at h
    cases h
  | some q =>
    obtain ⟨name, c₁, htext, h₁⟩ := bind_eq_ok.mp h
    obtain ⟨⟨q', hq', rfl⟩, -⟩ := textOf_eq_ok htext
    rw [hname] at hq'
    cases hq'
    refine ⟨{ e with full := e.full.put (Text.afterLast q.text '.') q.text },
      bind_eq_ok.mpr ⟨q.text, e, rfl, ?_⟩⟩
    cases hstatic : (t.firstToken? .kwStatic).isSome with
    | true =>
      rw [hstatic] at h₁
      cases h₁
    | false =>
      cases hall : q.text.endsWith ".*" with
      | true =>
        simp only [hstatic, hall] at h₁
        cases h₁
      | false => rfl

/-- What was taken once can be taken again, with whatever numbers. -/
theorem take_again {item : Item} {j : Nat}
    (h : (take file source (item.later j)).run c = .ok ((), c')) (k : Nat)
    (e : Collected) : ∃ e', (take file source (item.later k)).run e = .ok ((), e') := by
  cases item with
  | package t => exact enterPackage_again h e
  | «import» t => exact addImport_again h e
  | declaration d =>
    obtain ⟨s, hs, -⟩ := take_declaration_eq_ok h
    have houter : ((d.later k).scope.map e.registry.fullName).isSome =
        ((d.later j).scope.map c.registry.fullName).isSome := by
      simp [Declaration.later]
    obtain ⟨s', hs'⟩ := Declaration.exists_symbol hs e.full e.package houter
    refine ⟨e.declare (d.later k) s', ?_⟩
    show (take file source (.declaration (d.later k))).run e = _
    rw [run_take_declaration]
    show ((d.later j).symbol _ _ _ _ _).map _ = _
    rw [hs']
    rfl

theorem takeAll_again {items : List Item} {j : Nat}
    (h : ((items.map (Item.later j)).forM (take file source)).run c = .ok ((), c')) (k : Nat)
    (e : Collected) :
    ∃ e', ((items.map (Item.later k)).forM (take file source)).run e = .ok ((), e') := by
  induction items generalizing c e with
  | nil => exact ⟨e, rfl⟩
  | cons item items ih =>
    obtain ⟨c₁, h₁, h₂⟩ := takeAll_cons_eq_ok h
    obtain ⟨e₁, he₁⟩ := take_again h₁ k e
    obtain ⟨e₂, he₂⟩ := ih h₂ e₁
    exact ⟨e₂, bind_eq_ok.mpr ⟨(), e₁, he₁, he₂⟩⟩

/-- **A tree that was read can be read again**, whatever is known by then. -/
theorem visit_again {tree : ParseTree} (h : (visit file source none tree).run c = .ok ((), c'))
    (e : Collected) :
    ∃ e', (visit file source none tree).run e = .ok ((), e') := by
  rw [visit_eq, outline_eq_later] at h ⊢
  exact takeAll_again h _ e

end Collect

/-! ## What the heads of a file do -/

/-- The package of a file, if it says so, or else the one given. -/
def packageAfter (package : String) (tree : ParseTree) : String :=
  ((heads tree).filterMap Item.package?).getLast?.getD package

theorem packageAfter_packageAfter (package : String) (tree : ParseTree) :
    packageAfter (packageAfter package tree) tree = packageAfter package tree := by
  unfold packageAfter
  cases ((heads tree).filterMap Item.package?).getLast? <;> rfl

/-- What the package and import declarations of a file let simple names stand for. -/
def headBindings (tree : ParseTree) : List (String × String) :=
  (heads tree).flatMap (Pass.bindings .empty)

/-- What is known when the package and import declarations of a file are read. -/
def Collected.enter (tree : ParseTree) (c : Collected) : Collected :=
  { c with package := packageAfter c.package tree, full := c.full.update ⟨headBindings tree⟩ }

namespace Collect

variable {file source : String} {c c' : Collected}

theorem takeHeads_eq_ok {items : List Item} (hheads : ∀ item ∈ items, item.isHead = true)
    (h : (items.forM (take file source)).run c = .ok ((), c')) :
    c' = { c with
      package := (items.filterMap Item.package?).getLast?.getD c.package
      full := c.full.update ⟨items.flatMap (Pass.bindings .empty)⟩ } := by
  induction items generalizing c with
  | nil =>
    cases h
    rfl
  | cons item items ih =>
    obtain ⟨c₁, h₁, h₂⟩ := takeAll_cons_eq_ok h
    obtain ⟨hhead, hrest⟩ := List.forall_mem_cons.mp hheads
    have hc' := ih hrest h₂
    cases item with
    | package t =>
      have hpackage := package_of_take h₁
      obtain ⟨name, rfl⟩ := take_package h₁
      rw [hc', List.flatMap_cons, Table.update_append,
        List.filterMap_cons_some (f := Item.package?) rfl, List.getLast?_cons, ← hpackage]
      rfl
    | «import» t =>
      obtain rfl := take_import h₁
      rw [hc', List.flatMap_cons, Table.update_append]
      rfl
    | declaration d => cases hhead

/-- A file is read heads first, and then its declarations one after the other. -/
theorem visit_enter {tree : ParseTree} (hheads : HeadsFirst tree)
    (h : (visit file source none tree).run c = .ok ((), c')) :
    ((((declared tree).map (Declaration.later c.registry.size)).map Item.declaration).forM
      (take file source)).run
      (c.enter tree) = .ok ((), c') := by
  rw [visit_eq, outline_eq_heads hheads] at h
  have happend : (heads tree ++ ((declared tree).map (Declaration.later c.registry.size)).map
      Item.declaration).forM
      (take file source) = ((heads tree).forM (take file source) >>= fun _ =>
        (((declared tree).map (Declaration.later c.registry.size)).map Item.declaration).forM
          (take file source)) :=
    List.forM_append
  rw [happend] at h
  obtain ⟨⟨⟩, c₁, h₁, h₂⟩ := bind_eq_ok.mp h
  rwa [takeHeads_eq_ok (fun item hitem => (List.mem_filter.mp hitem).2) h₁] at h₂

end Collect

/-! ## Names in two readings -/

/-- A name that a symbol has is kept. -/
theorem Pass.names_kept {start : Nat} {c c' : Collected} (h : Pass start c items c') {id : SymbolId}
    (hid : id < c.registry.size) :
    c'.registry.fullName id = c.registry.fullName id ∧
    c'.registry.shortName id = c.registry.shortName id := by
  obtain ⟨o, ho⟩ := Registry.exists_get? hid
  obtain ⟨o', ho', hbare⟩ := h.kept ho
  have hfull := congrArg Symbol.fullName hbare
  have hshort := congrArg Symbol.shortName hbare
  rw [Registry.fullName_of_get? ho, Registry.fullName_of_get? ho', Registry.shortName_of_get? ho,
    Registry.shortName_of_get? ho']
  exact ⟨hfull, hshort⟩

/-- Declarations, numbered from `k` on, that have their full names from the symbols around them. -/
def NamedFrom (k : Nat) (package : String) (ds : List Declaration) (r : Registry) : Prop :=
  ∀ d ∈ ds, r.fullName (d.id + k) = nameIn package (d.scope.map fun o => r.fullName (o + k))
    (r.shortName (d.id + k))

/-- **Twins have one name.** Let a declaration have the same simple name in two readings, and so all
that it is declared in. Then it has the same full name in both. -/
theorem fullName_twin {package : String} {j k : Nat} {r r' : Registry}
    (h : NamedFrom j package (declared tree) r)
    (h' : NamedFrom k package (declared tree) r') {S : Declaration → Prop}
    (hscope : ∀ d ∈ declared tree, S d → ∀ e ∈ declared tree, d.scope = some e.id → S e)
    (hshort : ∀ d ∈ declared tree, S d → r.shortName (d.id + j) = r'.shortName (d.id + k)) :
    ∀ d ∈ declared tree, S d → r.fullName (d.id + j) = r'.fullName (d.id + k) := by
  -- The induction is on the number: what a declaration stands in has a lower one.
  intro d hd hS
  induction hid : d.id using Nat.strongRecOn generalizing d with
  | ind i ih =>
    subst hid
    rw [h d hd, h' d hd, hshort d hd hS]
    cases ho : d.scope with
    | none => rfl
    | some o =>
      obtain ⟨e, he, rfl, hlt⟩ := exists_declared_scope hd ho
      rw [Option.map_some, Option.map_some, ih e.id hlt e he (hscope d hd hS e he ho) rfl]

namespace Collect

variable {file source : String} {c c' : Collected} {start : Nat} {ds : List Declaration}
  {tree : ParseTree}

/-- The first of some declarations becomes a symbol by what is known before it, and the names around
it are those of the end, for they are kept. -/
theorem symbol_of_takeAll_cons {d : Declaration}
    (hordered : Ordered start c.registry.size ((d :: ds).map Item.declaration))
    (h : (((d :: ds).map Item.declaration).forM (take file source)).run c = .ok ((), c')) :
    ∃ s o, d.symbol file source c.full c.package (d.scope.map c'.registry.fullName) = .ok s ∧
      c'.registry.get? d.id = some o ∧ o.bare = s ∧
      (c'.registry.shortName d.id = s.shortName ∧ c'.registry.fullName d.id = s.fullName) ∧
      Ordered start (c.declare d s).registry.size (ds.map Item.declaration) ∧
      ((ds.map Item.declaration).forM (take file source)).run (c.declare d s) = .ok ((), c') := by
  obtain ⟨c₁, h₁, h₂⟩ := takeAll_cons_eq_ok h
  obtain ⟨s, hs, rfl⟩ := take_declaration_eq_ok h₁
  obtain ⟨hid, hscope, hrest⟩ := hordered
  have hordered' : Ordered start (c.declare d s).registry.size (ds.map Item.declaration) := by
    rw [size_declare]
    exact hrest
  have hpass := pass_of_takeAll file source hordered' h₂
  have houter : d.scope.map c.registry.fullName = d.scope.map c'.registry.fullName := by
    cases ho : d.scope with
    | none => rfl
    | some o =>
      have hlt : o < (c.declare d s).registry.size := by
        rw [size_declare]
        exact Nat.lt_succ_of_lt (hscope o ho).2
      have hkept : (c.declare d s).registry.fullName o = c.registry.fullName o := by
        obtain ⟨i, hi⟩ := Registry.exists_get? (hscope o ho).2
        obtain ⟨i', hi', hbare⟩ := get?_declare_bare c d s
          ((Registry.get?_add_of_lt s (hscope o ho).2).trans hi)
        have hfull := congrArg Symbol.fullName hbare
        rw [Registry.fullName_of_get? hi, Registry.fullName_of_get? hi']
        exact hfull
      rw [Option.map_some, Option.map_some, (hpass.names_kept hlt).1, hkept]
  rw [houter] at hs
  have hself : s.bare = s := by
    by_cases hkind : d.kind = .method
    · obtain ⟨parts, params, last, type, -, -, -, -, -, rfl⟩ :=
        (Declaration.symbol_method_eq_ok hkind).mp hs
      rfl
    · obtain ⟨n, last, -, -, rfl⟩ := (Declaration.symbol_type_eq_ok hkind).mp hs
      rfl
  obtain ⟨o, ho, hbare⟩ := get?_declare_bare c d s (Registry.get?_add_self c.registry s)
  obtain ⟨o', ho', hbare'⟩ := hpass.kept ho
  refine ⟨s, o', hs, hid.symm ▸ ho', hbare'.trans (hbare.trans hself), ?_, hordered', h₂⟩
  rw [hid]
  exact hpass.names_declare.symm

section

variable (hordered : Ordered start c.registry.size (ds.map Item.declaration))
  (h : ((ds.map Item.declaration).forM (take file source)).run c = .ok ((), c'))
include hordered h

/-- What declarations are given while something `Q` is true of what the simple names stand for, and
stays so. -/
theorem symbols_of_takeAll {Q : Table String → Prop} (hQ : Q c.full)
    (hstep : ∀ d ∈ ds, ∀ full s, Q full →
      d.symbol file source full c.package (d.scope.map c'.registry.fullName) = .ok s →
      c'.registry.shortName d.id = s.shortName → c'.registry.fullName d.id = s.fullName →
      Q (full.put s.shortName s.fullName)) :
    Q c'.full ∧ ∀ d ∈ ds, ∃ full o, Q full ∧ c'.registry.get? d.id = some o ∧
      d.symbol file source full c.package (d.scope.map c'.registry.fullName) = .ok o.bare := by
  induction ds generalizing c with
  | nil =>
    cases h
    exact ⟨hQ, fun d hd => by cases hd⟩
  | cons d ds ih =>
    obtain ⟨s, o, hs, ho, rfl, ⟨hshort, hfull⟩, hordered', hrest⟩ :=
      symbol_of_takeAll_cons hordered h
    have hpackage : (c.declare d o.bare).package = c.package := package_declare c d o.bare
    obtain ⟨hend, hall⟩ :=
      ih hordered' hrest (hstep d List.mem_cons_self c.full o.bare hQ hs hshort hfull)
      (fun e he => hpackage.symm ▸ hstep e (List.mem_cons_of_mem _ he))
    rw [hpackage] at hall
    exact ⟨hend, List.forall_mem_cons.mpr ⟨⟨c.full, o, hQ, ho, hs⟩, hall⟩⟩

/-- Each declaration becomes a symbol by what simple names stand for when it is taken: what they
stood for before, and then the declarations ahead of it. -/
theorem symbol_of_takeAll {i : Nat} {d : Declaration} (hd : ds[i]? = some d) :
    ∃ o, c'.registry.get? d.id = some o ∧
      d.symbol file source
        (c.full.update ⟨(ds.take i).map fun e =>
          (c'.registry.shortName e.id, c'.registry.fullName e.id)⟩) c.package
        (d.scope.map c'.registry.fullName) = .ok o.bare := by
  induction ds generalizing c i with
  | nil => cases hd
  | cons e ds ih =>
    obtain ⟨s, o, hs, ho, rfl, ⟨hshort, hfull⟩, hordered', hrest⟩ :=
      symbol_of_takeAll_cons hordered h
    cases i with
    | zero =>
      cases hd
      exact ⟨o, ho, hs⟩
    | succ i =>
      obtain ⟨o', ho', hs'⟩ := ih hordered' hrest hd
      refine ⟨o', ho', ?_⟩
      rw [List.take_succ_cons, List.map_cons, hshort, hfull]
      rw [package_declare] at hs'
      exact hs'

end

theorem ordered_of_heads {next : Nat} {items rest : List Item}
    (hheads : ∀ item ∈ items, item.isHead = true)
    (h : Ordered start next (items ++ rest)) : Ordered start next rest := by
  induction items with
  | nil => exact h
  | cons item items ih =>
    obtain ⟨hhead, hmore⟩ := List.forall_mem_cons.mp hheads
    cases item with
    | declaration d => cases hhead
    | _ => exact ih hmore h

theorem ordered_later (k : Nat) (hheads : HeadsFirst tree) :
    Ordered k k (((declared tree).map (Declaration.later k)).map Item.declaration) := by
  have hall : Ordered k k (outline none k tree) :=
    outline_ordered tree (Nat.le_refl k) fun _ ho => by cases ho
  rw [outline_eq_heads hheads] at hall
  exact ordered_of_heads (fun item hitem => (List.mem_filter.mp hitem).2) hall

variable (hheads : HeadsFirst tree) (h : (visit file source none tree).run c = .ok ((), c'))
include hheads h

/-- What a reading of a file gives its declarations, while something `Q` is true of what the simple
names stand for. -/
theorem symbols_of_visit {Q : Table String → Prop} (hQ : Q (c.enter tree).full)
    (hstep : ∀ d ∈ declared tree, ∀ full s, Q full →
      d.symbol file source full (packageAfter c.package tree)
        (d.scope.map fun o => c'.registry.fullName (o + c.registry.size)) = .ok s →
      c'.registry.shortName (d.id + c.registry.size) = s.shortName →
      c'.registry.fullName (d.id + c.registry.size) = s.fullName →
      Q (full.put s.shortName s.fullName)) :
    Q c'.full ∧ ∀ d ∈ declared tree, ∃ full o, Q full ∧
      c'.registry.get? (d.id + c.registry.size) = some o ∧
      d.symbol file source full (packageAfter c.package tree)
        (d.scope.map fun o => c'.registry.fullName (o + c.registry.size)) = .ok o.bare := by
  have houter (d : Declaration) : (d.later c.registry.size).scope.map c'.registry.fullName =
      d.scope.map fun o => c'.registry.fullName (o + c.registry.size) := by
    simp [Declaration.later, Function.comp_def]
  obtain ⟨hend, hall⟩ := symbols_of_takeAll (c := c.enter tree) (Q := Q)
    (ordered_later c.registry.size hheads) (visit_enter hheads h) hQ
        (fun d' hd' full s hfull hs hshort hname => by
      obtain ⟨d, hd, rfl⟩ := List.mem_map.mp hd'
      rw [houter] at hs
      exact hstep d hd full s hfull hs hshort hname)
  refine ⟨hend, fun d hd => ?_⟩
  obtain ⟨full, o, hfull, ho, hs⟩ := hall _ (List.mem_map_of_mem hd)
  rw [houter] at hs
  exact ⟨full, o, hfull, ho, hs⟩

/-- Every reading gives its declarations the names that follow from those around them. -/
theorem named_of_visit : NamedFrom c.registry.size (packageAfter c.package tree)
    (declared tree) c'.registry := by
  intro d hd
  obtain ⟨full, o, -, ho, hs⟩ := (symbols_of_visit (Q := fun _ => True) hheads h trivial
    fun _ _ _ _ _ _ _ _ => trivial).2 d hd
  have hname := Declaration.fullName_symbol hs
  rw [Registry.fullName_of_get? ho, Registry.shortName_of_get? ho]
  exact hname

end Collect

end Coupling.Project
