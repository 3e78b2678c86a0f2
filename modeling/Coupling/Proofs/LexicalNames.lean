import Coupling.Proofs.MethodSymbols

/-!
# Names follow nesting

A declaration has its place in a tree: the numbers of the children that lead to it. Another
declaration encloses it just if its place is a proper prefix. A reading goes through the
declarations in order and knows the symbol it is in, and from that alone it makes the full names; so
these are what the places say (`fullName_of_places`): the package, the names of the enclosing
declarations from the outside in, and the declaration's own name. All other nodes on the way,
whatever they declare, add nothing.

The symbol around a node is handed down as an argument. It may as well be kept in one place, set on
the way into a declaration and put back on the way out: `walk` does so, and leaves it after each
node as it was before (`walk_eq`).
-/

namespace Coupling.Project

open Java (ParseTree NodeInfo)

/-! ## The symbol that a reading is in -/

/-- A reading that keeps the symbol it is in. -/
abbrev Walk := StateT (Option SymbolId) Collect

namespace Collect

mutual

/-- Reads a tree in the symbol that is kept. -/
def walk (file source : String) : ParseTree → Walk Unit
  | .node info cs => do
    let t := ParseTree.node info cs
    match Role.ofForm info.form with
    | .package => enterPackage t
    | .import => addImport t
    | .type kind => do
      let outer ← get
      set (some (← addClass file source kind outer info t))
      walkAll file source cs
      set outer
    | .method => do
      let outer ← get
      set (some (← addMethod file source outer info t))
      walkAll file source cs
      set outer
    | .field => walkAll file source cs
    | .other => walkAll file source cs
  | _ => pure ()

def walkAll (file source : String) : List ParseTree → Walk Unit
  | [] => pure ()
  | t :: ts => do
    walk file source t
    walkAll file source ts

end

mutual

/-- **The symbol is put back.** A walk reads a tree as it is read in the symbol that is kept, and
keeps it after that. -/
theorem walk_eq (file source : String) : ∀ (t : ParseTree) (scope : Option SymbolId),
    (walk file source t).run scope = (visit file source scope t >>= fun _ => pure ((), scope))
  | .token _, _ | .skipped _, _ | .missing _, _ => rfl
  | .node info cs, scope => by
    rw [walk, visit]
    cases Role.ofForm info.form with
    | package | «import» => rfl
    | type kind | method => simp [walkAll_eq]
    | field | other => exact walkAll_eq file source cs scope

theorem walkAll_eq (file source : String) : ∀ (ts : List ParseTree) (scope : Option SymbolId),
    (walkAll file source ts).run scope = (visitAll file source scope ts >>= fun _ =>
      pure ((), scope))
  | [], _ => rfl
  | t :: ts, scope => by
    simp [walkAll, visitAll, walk_eq, walkAll_eq]

end

end Collect

/-! ## Places -/

/-- The part of a tree at a place: the numbers of the children that lead to it. -/
def partAt (t : ParseTree) : List Nat → Option ParseTree
  | [] => some t
  | k :: place => t.children[k]?.bind fun c => partAt c place

mutual

/-- The places of the declarations of a tree in order. Package and import declarations are not gone
into. -/
def places : ParseTree → List (List Nat)
  | .node info cs =>
    match Role.ofForm info.form with
    | .package => []
    | .import => []
    | .type _ => [] :: placesFrom 0 cs
    | .method => [] :: placesFrom 0 cs
    | .field => placesFrom 0 cs
    | .other => placesFrom 0 cs
  | _ => []

/-- The places in the children of a node from a child on. -/
def placesFrom (k : Nat) : List ParseTree → List (List Nat)
  | [] => []
  | t :: ts => (places t).map (k :: ·) ++ placesFrom (k + 1) ts

end

variable {k : Nat} {p : List Nat} {t : ParseTree}

theorem exists_cons_of_placesFrom {ts : List ParseTree} (h : p ∈ placesFrom k ts) :
    ∃ j q, p = j :: q ∧ k ≤ j := by
  induction ts generalizing k with
  | nil => cases h
  | cons t ts ih =>
    rw [placesFrom] at h
    rcases List.mem_append.mp h with h | h
    · obtain ⟨q, -, rfl⟩ := List.mem_map.mp h
      exact ⟨k, q, rfl, Nat.le_refl k⟩
    · obtain ⟨j, q, rfl, hle⟩ := ih h
      exact ⟨j, q, rfl, Nat.le_of_succ_le hle⟩

mutual

/-- The outline of a tree has its declarations in the order of their places. -/
theorem map_partAt_places : ∀ (t : ParseTree) (scope : Option SymbolId) (next : Nat),
    (places t).map (partAt t) = (declarations (outline scope next t)).map fun d => some d.node
  | .token _, _, _ | .skipped _, _, _ | .missing _, _, _ => rfl
  | .node info cs, scope, next => by
    have hbelow (scope : Option SymbolId) (next : Nat) :=
      map_partAt_placesFrom info cs cs 0 scope next rfl
    rw [places, outline]
    cases Role.ofForm info.form with
    | package | «import» => rfl
    | type kind | method => exact congrArg (_ :: ·) (hbelow (some next) (next + 1))
    | field | other => exact hbelow scope next

theorem map_partAt_placesFrom (info : NodeInfo) (cs : List ParseTree) :
    ∀ (ts : List ParseTree) (k : Nat)
    (scope : Option SymbolId) (next : Nat), cs.drop k = ts →
    (placesFrom k ts).map (partAt (.node info cs)) =
      (declarations (outlineOf scope next ts)).map fun d => some d.node
  | [], _, _, _, _ => rfl
  | t :: ts, k, scope, next, hdrop => by
    have hk : cs[k]? = some t := by
      rw [← List.head?_drop, hdrop]
      rfl
    have hts : cs.drop (k + 1) = ts := by
      rw [← List.tail_drop, hdrop]
      rfl
    have hhere : partAt (.node info cs) ∘ (k :: ·) = partAt t := by
      funext p
      show cs[k]?.bind (fun c => partAt c p) = partAt t p
      rw [hk]
      rfl
    rw [placesFrom, outlineOf, declarations_append, List.map_append, List.map_append,
      List.map_map, hhere, map_partAt_places t scope next, map_partAt_placesFrom info cs ts
        (k + 1) scope _ hts]

end

theorem length_places (t : ParseTree) (scope : Option SymbolId) (next : Nat) :
    (places t).length = (declarations (outline scope next t)).length := by
  have h := congrArg List.length (map_partAt_places t scope next)
  rwa [List.length_map, List.length_map] at h

/-- The declarations, numbered from `next` on in the order of their places, that enclose a place,
from the outside in. -/
def enclosing (next : Nat) (ps : List (List Nat)) (place : List Nat) : List SymbolId :=
  ((ps.zipIdx next).filter fun q => decide (q.1 <+: place ∧ q.1 ≠ place)).map (·.2)

theorem enclosing_append (next : Nat) (ps qs : List (List Nat)) (place : List Nat) :
    enclosing next (ps ++ qs) place = enclosing next ps place ++
      enclosing (next + ps.length) qs place := by
  unfold enclosing
  rw [List.zipIdx_append, List.filter_append, List.map_append]

theorem enclosing_map_cons (next k : Nat) (ps : List (List Nat)) (place : List Nat) :
    enclosing next (ps.map (k :: ·)) (k :: place) = enclosing next ps place := by
  have hsame : (fun q : List Nat × Nat => decide (q.1 <+: k :: place ∧ q.1 ≠ k :: place)) ∘
      Prod.map (k :: ·) id =
      fun q => decide (q.1 <+: place ∧ q.1 ≠ place) := by
    funext q
    simp
  unfold enclosing
  rw [List.zipIdx_map, List.filter_map, List.map_map, hsame]
  rfl

theorem enclosing_eq_nil {next : Nat} {ps : List (List Nat)} {place : List Nat}
    (h : ∀ p ∈ ps, p <+: place → p = place) : enclosing next ps place = [] := by
  unfold enclosing
  rw [List.map_eq_nil_iff, List.filter_eq_nil_iff]
  intro q hq hprefix
  obtain ⟨hle, hne⟩ := of_decide_eq_true hprefix
  exact hne (h q.1 (List.fst_mem_of_mem_zipIdx hq) hle)

/-! ## Names from places -/

/-- What a full name begins with: the name around it, or the package if there is one. -/
def nameBase (package : String) (outer : Option String) : List String :=
  outer.elim (if package.isEmpty then [] else [package]) fun name => [name]

theorem nameIn_eq (package : String) (outer : Option String) (name : String) :
    nameIn package outer name = ".".intercalate (nameBase package outer ++ [name]) := by
  cases outer with
  | none =>
    unfold nameIn nameBase
    by_cases h : package.isEmpty = true
    · simp [h]
    · simp [h]
  | some s => simp [nameIn, nameBase]

/-- A name that is put together already is put together with more. -/
theorem intercalate_join {xs ys : List String} (hxs : xs ≠ []) (hys : ys ≠ []) :
    ".".intercalate ([".".intercalate xs] ++ ys) = ".".intercalate (xs ++ ys) := by
  rw [String.intercalate_append_of_ne_nil (List.cons_ne_nil _ _) hys, String.intercalate_singleton,
    String.intercalate_append_of_ne_nil hxs hys]

/-- Declarations have their full names from the symbols around them. -/
def NamedWithin (package : String) (r : Registry) (ds : List Declaration) : Prop :=
  ∀ d ∈ ds, r.fullName d.id = nameIn package (d.scope.map r.fullName) (r.shortName d.id)

section Names

variable {package : String} {r : Registry}

mutual

/-- The full name of a declaration is made of the names that its place says. -/
theorem fullName_of_places : ∀ (t : ParseTree) (scope : Option SymbolId) (next : Nat),
    NamedWithin package r (declarations (outline scope next t)) → ∀ q ∈ (places t).zipIdx next,
    r.fullName q.2 = ".".intercalate (nameBase package (scope.map r.fullName) ++
      ((enclosing next (places t) q.1).map r.shortName ++ [r.shortName q.2]))
  | .token _, _, _, _, _, hq | .skipped _, _, _, _, _, hq | .missing _, _, _, _, _, hq => nomatch hq
  | .node info cs, scope, next, hnamed, q, hq => by
    -- A declaration comes first, encloses all below it, and its full name is what theirs begin
    -- with.
    have hdeclaration (d : Declaration) (hid : d.id = next) (hscope : d.scope = scope)
        (hnamed : NamedWithin package r (d :: declarations (outlineOf (some next) (next + 1) cs)))
        (hq : q ∈ (([] : List Nat) :: placesFrom 0 cs).zipIdx next) :
        r.fullName q.2 = ".".intercalate (nameBase package (scope.map r.fullName) ++
          ((enclosing next ([] :: placesFrom 0 cs) q.1).map r.shortName ++ [r.shortName q.2])) := by
      obtain ⟨hself, hrest⟩ := List.forall_mem_cons.mp hnamed
      rw [hid, hscope, nameIn_eq] at hself
      rw [List.zipIdx_cons, List.mem_cons] at hq
      have hsplit : enclosing next ([] :: placesFrom 0 cs) q.1 =
          enclosing next [[]] q.1 ++ enclosing (next + 1) (placesFrom 0 cs) q.1 :=
        enclosing_append next [[]] (placesFrom 0 cs) q.1
      rcases hq with rfl | hq
      · have hnone : enclosing (next + 1) (placesFrom 0 cs) [] = [] :=
          enclosing_eq_nil fun p _ hprefix => List.prefix_nil.mp hprefix
        have hfirst : enclosing next [[]] [] = [] :=
          enclosing_eq_nil fun p hp _ => List.mem_singleton.mp hp
        rw [hsplit, hnone, hfirst]
        exact hself
      · have hbelow := fullName_of_placesFrom cs 0 (some next) (next + 1) hrest q hq
        obtain ⟨j, p, hp, -⟩ := exists_cons_of_placesFrom (List.fst_mem_of_mem_zipIdx hq)
        have hfirst : enclosing next [[]] q.1 = [next] := by
          unfold enclosing
          simp [hp]
        rw [hsplit, hfirst, hbelow, Option.map_some, hself]
        show ".".intercalate ([".".intercalate _] ++ _) = _
        rw [intercalate_join (by simp) (by simp)]
        simp
    rw [outline] at hnamed
    rw [places] at hq ⊢
    cases hrole : Role.ofForm info.form with
    | package | «import» => simp [hrole] at hq
    | type kind | method =>
      simp only [hrole] at hnamed hq ⊢
      exact hdeclaration _ rfl rfl hnamed hq
    | field | other =>
      simp only [hrole] at hnamed hq ⊢
      exact fullName_of_placesFrom cs 0 scope next hnamed q hq

theorem fullName_of_placesFrom : ∀ (ts : List ParseTree) (k : Nat) (scope : Option SymbolId)
    (next : Nat),
    NamedWithin package r (declarations (outlineOf scope next ts)) →
    ∀ q ∈ (placesFrom k ts).zipIdx next,
    r.fullName q.2 = ".".intercalate (nameBase package (scope.map r.fullName) ++
      ((enclosing next (placesFrom k ts) q.1).map r.shortName ++ [r.shortName q.2]))
  | [], _, _, _, _, _, hq => nomatch hq
  | t :: ts, k, scope, next, hnamed, q, hq => by
    rw [outlineOf, declarations_append] at hnamed
    have hfirst : NamedWithin package r (declarations (outline scope next t)) :=
      fun d hd => hnamed d (List.mem_append_left _ hd)
    have hrest : NamedWithin package r
        (declarations (outlineOf scope (next + (declarations (outline scope next t)).length) ts)) :=
      fun d hd => hnamed d (List.mem_append_right _ hd)
    rw [placesFrom] at hq ⊢
    rw [enclosing_append, List.length_map]
    rw [List.zipIdx_append, List.length_map, List.mem_append] at hq
    rcases hq with hq | hq
    · rw [List.zipIdx_map] at hq
      obtain ⟨⟨p, id⟩, hp, rfl⟩ := List.mem_map.mp hq
      -- Places in the children after this one begin with another number.
      have hafter : enclosing (next + (places t).length) (placesFrom (k + 1) ts) (k :: p) = [] := by
        refine enclosing_eq_nil fun p' hp' hprefix => ?_
        obtain ⟨j, q, rfl, hle⟩ := exists_cons_of_placesFrom hp'
        exact absurd (List.cons_prefix_cons.mp hprefix).1 (Nat.ne_of_gt hle)
      show r.fullName id =
        ".".intercalate (_ ++ ((_ ++ enclosing _ _ (k :: p)).map _ ++ [r.shortName id]))
      rw [hafter, List.append_nil]
      show r.fullName id =
        ".".intercalate (_ ++ ((enclosing _ _ (k :: p)).map _ ++ [r.shortName id]))
      rw [enclosing_map_cons]
      exact fullName_of_places t scope next hfirst _ hp
    · obtain ⟨j, p, hp, hle⟩ := exists_cons_of_placesFrom (List.fst_mem_of_mem_zipIdx hq)
      have hbefore : enclosing next ((places t).map (k :: ·)) q.1 = [] := by
        refine enclosing_eq_nil fun p' hp' hprefix => ?_
        obtain ⟨p'', -, rfl⟩ := List.mem_map.mp hp'
        rw [hp] at hprefix
        exact absurd (List.cons_prefix_cons.mp hprefix).1 (Nat.ne_of_lt hle)
      rw [hbefore, List.nil_append]
      rw [length_places t scope next] at hq ⊢
      exact fullName_of_placesFrom ts (k + 1) scope _ hrest q hq

end

end Names

/-! ## Which nodes are declarations -/

/-- What a part of a tree is for, if it is a node. -/
def roleAt (t : ParseTree) (place : List Nat) : Option Role :=
  (partAt t place).bind fun part => part.form?.map Role.ofForm

/-- A class, interface or method declaration that is no part of a package or import declaration. -/
def DeclaredAt (t : ParseTree) (place : List Nat) : Prop :=
  ((∃ kind, roleAt t place = some (.type kind)) ∨ roleAt t place = some .method) ∧
    ∀ above, above <+: place → above ≠ place → roleAt t above ≠ some .package ∧
    roleAt t above ≠ some .import

theorem mem_placesFrom {ts : List ParseTree} {j : Nat} :
    j :: p ∈ placesFrom k ts ↔ k ≤ j ∧ ∃ t, ts[j - k]? = some t ∧ p ∈ places t := by
  induction ts generalizing k with
  | nil => simp [placesFrom]
  | cons t ts ih =>
    rw [placesFrom, List.mem_append, ih]
    constructor
    · rintro (h | ⟨hle, t', ht', hp⟩)
      · obtain ⟨q, hq, heq⟩ := List.mem_map.mp h
        cases heq
        exact ⟨Nat.le_refl _, t, by simp, hq⟩
      · have hsub : j - k = (j - (k + 1)) + 1 := by omega
        exact ⟨Nat.le_of_succ_le hle, t', by rw [hsub]; exact ht', hp⟩
    · rintro ⟨hle, t', ht', hp⟩
      rcases Nat.eq_or_lt_of_le hle with rfl | hlt
      · rw [Nat.sub_self] at ht'
        cases ht'
        exact .inl (List.mem_map.mpr ⟨p, hp, rfl⟩)
      · have hsub : j - k = (j - (k + 1)) + 1 := by omega
        rw [hsub] at ht'
        exact .inr ⟨hlt, t', ht', hp⟩

theorem nil_mem_places : [] ∈ places t ↔ (∃ kind, roleAt t [] = some (.type kind)) ∨
    roleAt t [] = some .method := by
  have hbelow (cs : List ParseTree) : [] ∉ placesFrom 0 cs := by
    intro h
    obtain ⟨j, q, hcons, -⟩ := exists_cons_of_placesFrom h
    cases hcons
  cases t with
  | node info cs =>
    have hrole : roleAt (.node info cs) [] = some (Role.ofForm info.form) := rfl
    rw [places, hrole]
    cases Role.ofForm info.form <;> simp [hbelow]
  | _ => simp [places, roleAt, partAt, ParseTree.form?]

theorem cons_mem_places :
    k :: p ∈ places t ↔ (roleAt t [] ≠ some .package ∧ roleAt t [] ≠ some .import) ∧
      ∃ c, t.children[k]? = some c ∧ p ∈ places c := by
  cases t with
  | node info cs =>
    have hrole : roleAt (.node info cs) [] = some (Role.ofForm info.form) := rfl
    have hbelow : k :: p ∈ placesFrom 0 cs ↔ ∃ c, cs[k]? = some c ∧ p ∈ places c := by
      rw [mem_placesFrom, Nat.sub_zero]
      exact and_iff_right (Nat.zero_le k)
    rw [places, hrole]
    cases Role.ofForm info.form <;> simp [hbelow, ParseTree.children]
  | _ => simp [places, ParseTree.children]

/-- The places are those of all declarations. -/
theorem mem_places_iff : p ∈ places t ↔ DeclaredAt t p := by
  induction p generalizing t with
  | nil =>
    rw [nil_mem_places, DeclaredAt]
    exact (and_iff_left fun above hprefix hne => absurd (List.prefix_nil.mp hprefix) hne).symm
  | cons k p ih =>
    have hstep {c : ParseTree} (hc : t.children[k]? = some c) (q : List Nat) : roleAt t (k :: q) =
        roleAt c q := by
      rw [roleAt, partAt, hc]
      rfl
    rw [cons_mem_places]
    constructor
    · rintro ⟨hroot, c, hc, hp⟩
      obtain ⟨hdeclared, habove⟩ := ih.mp hp
      rw [DeclaredAt, hstep hc]
      refine ⟨hdeclared, fun above hprefix hne => ?_⟩
      cases above with
      | nil => exact hroot
      | cons j q =>
        obtain ⟨rfl, hq⟩ := List.cons_prefix_cons.mp hprefix
        rw [hstep hc]
        exact habove q hq fun heq => hne (by rw [heq])
    · rintro ⟨hdeclared, habove⟩
      refine ⟨habove [] List.nil_prefix (List.cons_ne_nil k p).symm, ?_⟩
      cases hc : t.children[k]? with
      | none => simp [roleAt, partAt, hc] at hdeclared
      | some c =>
        rw [hstep hc] at hdeclared
        refine ⟨c, rfl, ih.mpr ⟨hdeclared, fun above hprefix hne => ?_⟩⟩
        rw [← hstep hc]
        exact habove (k :: above) (List.prefix_cons_inj k |>.mpr hprefix) fun heq =>
          hne (List.cons_inj_right k |>.mp heq)

mutual

/-- A declaration has the kind that its node is for. -/
theorem role_of_outline : ∀ (t : ParseTree) (scope : Option SymbolId) (next : Nat),
    ∀ d ∈ declarations (outline scope next t),
      Role.ofForm d.info.form = .type d.kind ∨ Role.ofForm d.info.form = .method ∧ d.kind = .method
  | .token _, _, _, _, hd | .skipped _, _, _, _, hd | .missing _, _, _, _, hd => nomatch hd
  | .node info cs, scope, next, d, hd => by
    rw [outline] at hd
    cases hrole : Role.ofForm info.form with
    | package | «import» => simp [hrole, declarations, Item.declaration?] at hd
    | type kind =>
      simp only [hrole] at hd
      rcases List.mem_cons.mp hd with rfl | hd
      · exact .inl hrole
      · exact role_of_outlineOf cs _ _ d hd
    | method =>
      simp only [hrole] at hd
      rcases List.mem_cons.mp hd with rfl | hd
      · exact .inr ⟨hrole, rfl⟩
      · exact role_of_outlineOf cs _ _ d hd
    | field | other =>
      simp only [hrole] at hd
      exact role_of_outlineOf cs _ _ d hd

theorem role_of_outlineOf : ∀ (ts : List ParseTree) (scope : Option SymbolId) (next : Nat),
    ∀ d ∈ declarations (outlineOf scope next ts),
      Role.ofForm d.info.form = .type d.kind ∨ Role.ofForm d.info.form = .method ∧ d.kind = .method
  | [], _, _, _, hd => nomatch hd
  | t :: ts, scope, next, d, hd => by
    rw [outlineOf, declarations_append] at hd
    rcases List.mem_append.mp hd with hd | hd
    · exact role_of_outline t _ _ d hd
    · exact role_of_outlineOf ts _ _ d hd

end

/-! ## The names of a reading -/

theorem id_of_getElem? {ds : List Declaration} {next i : Nat} {d : Declaration}
    (hids : ds.map (·.id) = List.range' next ds.length) (hd : ds[i]? = some d) :
    d.id = next + i ∧ (ds.take i).map (·.id) = List.range' next i := by
  obtain ⟨hlt, -⟩ := List.getElem?_eq_some_iff.mp hd
  constructor
  · have hget := congrArg (·[i]?) hids
    simp only [List.getElem?_map, hd, Option.map_some, List.getElem?_range' hlt, Nat.one_mul]
      at hget
    exact Option.some_inj.mp hget
  · rw [List.map_take, hids, ← Nat.add_sub_cancel' (Nat.le_of_lt hlt), ← List.range'_append_1]
    exact List.take_left' List.length_range'

/-- What simple names stand for when the declaration with a number is read: what they stood for
before, the heads of the file, and the declarations before it. -/
def tableAt (c c' : Collected) (tree : ParseTree) (i : Nat) : Table String :=
  (c.enter tree).full.update ⟨(List.range' c.registry.size i).map fun j =>
    (c'.registry.shortName j, c'.registry.fullName j)⟩

section Reading

open Collect (visit walk)

variable {file source : String} {tree : ParseTree} {c c' : Collected}

/-- A declaration that has a symbol goes by its identifier or its signature, and stands in its
lines. -/
theorem Declaration.describes_symbol {d : Declaration} {full : Table String} {package : String}
    {outer : Option String} {s : Symbol} (h : d.symbol file source full package outer = .ok s) :
    s.kind = d.kind ∧ s.startLine = d.info.start.start.line ∧
      d.info.stop.map (·.start.line) = some s.stopLine ∧
      (d.kind ≠ .method → ∃ n, d.node.first? .identifier = some n ∧ n.text = s.shortName) := by
  by_cases hkind : d.kind = .method
  · obtain ⟨parts, params, last, type, -, -, hstop, -, -, rfl⟩ := (symbol_method_eq_ok hkind).mp h
    exact ⟨hkind.symm, rfl, by rw [hstop]; rfl, fun hne => absurd hkind hne⟩
  · obtain ⟨n, last, hn, hstop, rfl⟩ := (symbol_type_eq_ok hkind).mp h
    exact ⟨rfl, rfl, by rw [hstop]; rfl, fun _ => ⟨n, hn, rfl⟩⟩

section

variable {i : Nat} {p : List Nat} (hheads : HeadsFirst tree)
  (h : (visit file source none tree).run c = .ok ((), c'))
  (hp : (places tree)[i]? = some p)
include hheads h hp

/-- The declaration at a place, and the symbol that a reading gives it. -/
theorem symbol_at_place :
    ∃ d ∈ declarations (outline none c.registry.size tree), ∃ o, partAt tree p = some d.node ∧
      d.id = c.registry.size + i ∧
      c'.registry.get? d.id = some o ∧
        d.symbol file source (tableAt c c' tree i) (packageAfter c.package tree)
        (d.scope.map c'.registry.fullName) = .ok o.bare := by
  have hall := declarations_outline c.registry.size tree
  have hordered : Ordered c.registry.size c.registry.size (outline none c.registry.size tree) :=
    outline_ordered tree (Nat.le_refl _) fun _ ho => by cases ho
  have hids := hordered.map_id
  have hnode := congrArg (·[i]?) (map_partAt_places tree none c.registry.size)
  rw [hall] at hids hnode ⊢
  simp only [List.getElem?_map, hp, Option.map_some] at hnode
  obtain ⟨d, hd, hpart⟩ := Option.map_eq_some_iff.mp hnode.symm
  rw [← List.getElem?_map] at hd
  obtain ⟨o, ho, hs⟩ := Collect.symbol_of_takeAll (c := c.enter tree)
    (Collect.ordered_later _ hheads) (Collect.visit_enter hheads h) hd
  obtain ⟨hid, hbefore⟩ := id_of_getElem? hids hd
  refine ⟨d, List.mem_of_getElem? hd, o, hpart.symm, hid, ho, ?_⟩
  rw [tableAt, ← hbefore, List.map_map]
  exact hs

/-- The full names that a reading gives are made of the names that the places say. -/
theorem fullName_at_place :
    c'.registry.fullName (c.registry.size + i) =
      ".".intercalate (nameBase (packageAfter c.package tree) none ++
      ((enclosing c.registry.size (places tree) p).map c'.registry.shortName ++
        [c'.registry.shortName (c.registry.size + i)])) := by
  refine fullName_of_places tree none c.registry.size (fun d hd => ?_) (p, c.registry.size + i) ?_
  · rw [declarations_outline] at hd
    obtain ⟨e, he, rfl⟩ := List.mem_map.mp hd
    have hname := Collect.named_of_visit hheads h e he
    rwa [Declaration.later, Option.map_map]
  · rw [List.mk_mem_zipIdx_iff_le_and_getElem?_sub, Nat.add_sub_cancel_left]
    exact ⟨Nat.le_add_right _ _, hp⟩

end

/-- **Full names follow nesting.** Let a reading of a tree come to its end. Its declarations then
have symbols, in the order of their places. A class or interface goes by its identifier, and a
method by the signature that it has when it is read. The full name is the package, if there is one,
the names of the enclosing declarations from the outside in, and the own name. The symbol that the
reading is in is after each node what it was before. -/
theorem names_follow_nesting (htree : HeadsFirst tree ∨ ∃ text, tree = (Java.parse text).tree)
    (h : (visit file source none tree).run c = .ok ((), c')) :
    c'.registry.size = c.registry.size + (places tree).length ∧
    (∀ p, p ∈ places tree ↔ DeclaredAt tree p) ∧
    (∀ i p, (places tree)[i]? = some p → ∃ info parts s, partAt tree p = some (.node info parts) ∧
      c'.registry.get? (c.registry.size + i) = some s ∧
      (Role.ofForm info.form = .type s.kind ∨ Role.ofForm info.form = .method ∧ s.kind = .method) ∧
      s.startLine = info.start.start.line ∧ info.stop.map (·.start.line) = some s.stopLine ∧
      (s.kind ≠ .method → ∃ n, (ParseTree.node info parts).first? .identifier = some n ∧
        n.text = s.shortName) ∧
      (s.kind = .method → signatureOf (tableAt c c' tree i) (.node info parts) = .ok s.shortName) ∧
      s.fullName = ".".intercalate (nameBase (packageAfter c.package tree) none ++
        ((enclosing c.registry.size (places tree) p).map c'.registry.shortName ++ [s.shortName]))) ∧
    ∀ t scope, (walk file source t).run scope = (visit file source scope t >>= fun _ =>
      pure ((), scope)) := by
  have hheads := headsFirst_of_parsed htree
  refine ⟨?_, fun p => mem_places_iff, fun i p hp => ?_, Collect.walk_eq file source⟩
  · rw [size_of_visit h, length_places tree none c.registry.size, declarations_outline,
      List.length_map]
  · obtain ⟨d, hd, o, hpart, hid, ho, hs⟩ := symbol_at_place hheads h hp
    obtain ⟨hkind, hstart, hstop, htype⟩ := Declaration.describes_symbol hs
    have hfull := fullName_at_place hheads h hp
    rw [← hid, Registry.fullName_of_get? ho, Registry.shortName_of_get? ho] at hfull
    rw [← hid]
    refine ⟨d.info, d.parts, o, hpart, ho, ?_, hstart, hstop, fun hne => htype ?_,
      fun hmethod => ?_, hfull⟩
    · have hrole := role_of_outline tree none c.registry.size d hd
      rwa [← hkind] at hrole
    · rwa [← hkind]
    · have hsignature := Declaration.signature_symbol hs (hkind.symm.trans hmethod)
      exact hsignature

end Reading

open Profiler (branch named packageOf classNamed methodTaking)

/-- A class in a method in a class in an enum in a class, in a package. -/
def nestedClasses : ParseTree :=
  branch .compilationUnit [packageOf "p", classNamed
    (named "A") [branch .enumDeclaration [named "E",
      branch .enumBodyDeclarations [classNamed
        (named "B") [methodTaking [branch .formalParameterList [parameterOf "B"]] "m"
      [branch .block [branch .lambdaExpression [classNamed (named "C") []]]]]]]]]

/-- What is known after it is read. -/
def nestedRead : Collected :=
  (((Collect.visit "A.java" "" none nestedClasses).run { registry := .empty }).toOption.map
    (·.2)).getD
    { registry := .empty }

/-- The enum and the lambda on the way to the last class are not in its name. -/
theorem nestedClasses_named :
    (Collect.visit "A.java" "" none nestedClasses).run { registry := .empty } =
      .ok ((), nestedRead) ∧
      (∃ s, nestedRead.registry.get? 3 = some s ∧ s.fullName =
        ".".intercalate ["p", nestedRead.registry.shortName 0, nestedRead.registry.shortName 1,
          nestedRead.registry.shortName 2, s.shortName]) ∧
      nestedRead.registry.fullName 3 = "p.A.B.m(p.A.B).C" := by
  have hok : ((Collect.visit "A.java" "" none nestedClasses).run { registry := .empty }).toBool =
      true := by
    decide +kernel
  obtain ⟨⟨⟨⟩, c⟩, hc⟩ := Steps.exists_of_toBool hok
  have hread : (Collect.visit "A.java" "" none nestedClasses).run { registry := .empty } =
      .ok ((), nestedRead) := by
    rw [nestedRead, hc]
    rfl
  have hplaces : (places nestedClasses)[3]? = some [1, 2, 0, 1, 0, 2, 0, 3, 0, 0, 0] := by
    decide +kernel
  obtain ⟨info, parts, s, -, hs, -, -, -, -, -, hfull⟩ :=
    (names_follow_nesting (.inl (by decide +kernel)) hread).2.2.1 3 _ hplaces
  exact ⟨hread, ⟨s, hs, hfull⟩, by decide +kernel⟩

end Coupling.Project
