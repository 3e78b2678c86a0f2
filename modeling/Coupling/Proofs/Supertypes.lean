import Coupling.Proofs.FailedReadings

/-!
# Supertypes that are noted

A class or interface declaration names its supertypes in clauses: one type after `extends` in a
class, lists of types elsewhere. A reading takes each clause for one supertype, and the list of a
`permits` clause for one more (`supertypes_eq`). So the supertypes that are written are noted one by
one just if a list that is taken has one type, and no list of permitted types comes after it
(`supertypes_noted_by_clause`).
-/

namespace Coupling.Project

open Java (ParseTree RuleName Kind)
open Steps

/-! ## Resolving lists of types -/

theorem TypeText.pieces_delimited (cs ds : List Char) {d : Char} (hd : isDelimiter d = true) :
    (TypeText.ofChars (cs ++ d :: ds)).pieces =
      (TypeText.ofChars cs).pieces ++ d.toString :: (TypeText.ofChars ds).pieces := by
  induction cs with
  | nil => simp [TypeText.ofChars, TypeText.cons, TypeText.pieces, hd]
  | cons c cs ih =>
    rw [List.cons_append, TypeText.ofChars, TypeText.ofChars]
    unfold TypeText.pieces at ih ⊢
    unfold TypeText.cons
    split
    · simpa using ih
    · obtain ⟨hfirst, hrest⟩ := List.cons.inj ih
      rw [String.ofList_inj] at hfirst
      rw [hfirst]
      exact List.cons_eq_cons.mpr ⟨rfl, hrest⟩

theorem resolve_comma (full : Table String) (s t : String) :
    resolve full (s ++ "," ++ t) = resolve full s ++ expand full "," ++ resolve full t := by
  have hpieces : (TypeText.ofText (s ++ "," ++ t)).pieces =
      (TypeText.ofText s).pieces ++ "," :: (TypeText.ofText t).pieces := by
    unfold TypeText.ofText
    rw [String.toList_append, String.toList_append, List.append_assoc]
    exact TypeText.pieces_delimited s.toList t.toList (by decide)
  unfold resolve
  rw [hpieces, List.map_append, String.join_append, List.map_cons, String.join_cons,
    String.append_assoc]

theorem text_node (info : Java.NodeInfo) (cs : List ParseTree) :
    (ParseTree.node info cs).text = String.join (cs.map ParseTree.text) := by
  unfold ParseTree.text
  rw [ParseTree.leaves, ParseTree.leavesOf_eq_flatMap]
  induction cs with
  | nil => rfl
  | cons c cs ih => rw [List.flatMap_cons, List.map_append, String.join_append, ih, List.map_cons,
    String.join_cons]

/-- A list of types as it is written: a type, and further types after a comma each. -/
structure IsTypeList (t first : ParseTree) (more : List (ParseTree × ParseTree)) : Prop where
  rule : t.isA .typeList = true
  children : t.children = first :: more.flatMap fun x => [x.1, x.2]
  first_type : first.isA .typeType = true
  comma : ∀ x ∈ more, x.1.text = "," ∧ x.1.isA .typeType = false
  type : ∀ x ∈ more, x.2.isA .typeType = true

namespace IsTypeList

variable {t first : ParseTree} {more : List (ParseTree × ParseTree)} (h : IsTypeList t first more)
include h

theorem types_eq : t.all .typeType = first :: more.map (·.2) := by
  have hmore : (more.flatMap fun x => [x.1, x.2]).filter (ParseTree.isA .typeType) =
      more.map (·.2) := by
    have hcomma := h.comma
    have htype := h.type
    clear h
    induction more with
    | nil => rfl
    | cons x more ih =>
      obtain ⟨hx, hcomma⟩ := List.forall_mem_cons.mp hcomma
      obtain ⟨hx', htype⟩ := List.forall_mem_cons.mp htype
      rw [List.flatMap_cons, List.filter_append, ih hcomma htype]
      simp [hx.2, hx']
  rw [ParseTree.all, h.children, List.filter_cons_of_pos h.first_type, hmore]

/-- A list of several types has the text of the first, a comma, and more. -/
theorem text_eq : t.text = first.text ++ String.join (more.map fun x => "," ++ x.2.text) := by
  cases t with
  | node info cs =>
    have hmore : String.join ((more.flatMap fun x => [x.1, x.2]).map ParseTree.text) =
        String.join (more.map fun x => "," ++ x.2.text) := by
      have hcomma := h.comma
      clear h
      induction more with
      | nil => rfl
      | cons x more ih =>
        obtain ⟨hx, hcomma⟩ := List.forall_mem_cons.mp hcomma
        simp only [List.flatMap_cons, List.map_append, String.join_append, ih hcomma, List.map_cons,
          String.join_cons, hx.1]
        simp
    have hchildren : cs = _ := h.children
    rw [text_node, hchildren, List.map_cons, String.join_cons, hmore]
  | _ => exact absurd h.rule (by simp [ParseTree.isA, ParseTree.rule?, ParseTree.form?])

/-- A list is resolved like its first type just if it has no other. -/
theorem resolve_eq_iff {full : Table String} (hcomma : expand full "," ≠ "") :
    resolve full t.text = resolve full first.text ↔ more = [] := by
  rw [h.text_eq]
  cases more with
  | nil => simp
  | cons x more =>
    simp only [List.map_cons, String.join_cons, ← String.append_assoc, reduceCtorEq, iff_false]
    rw [String.append_assoc, resolve_comma, String.append_assoc, String.append_eq_left_iff,
      String.append_eq_empty_iff]
    exact fun hempty => hcomma hempty.1

end IsTypeList

/-! ## Clauses -/

/-- A clause of a declaration: nothing, or a keyword and what it introduces. -/
inductive Clause (k : Kind) : Option ParseTree → List ParseTree → Prop
  | absent : Clause k none []
  | written {keyword t : ParseTree} (h : keyword.kind? = some k) : Clause k (some t) [keyword, t]

/-- A part of a declaration that belongs to none of its clauses. -/
structure Beside (t : ParseTree) : Prop where
  keyword : t.kind? ≠ some .kwExtends ∧ t.kind? ≠ some .kwImplements
  rule : t.isA .typeType = false ∧ t.isA .typeList = false

/-- The keyword of the list of supertypes. -/
def listKeyword : SymbolKind → Kind
  | .class => .kwImplements
  | _ => .kwExtends

/-- The clauses of a class or interface declaration: its own supertype, which only a class has, the
list of the others, and the list of the types that may be below it. -/
structure Heading (kind : SymbolKind) (t : ParseTree) (own listed permitted : Option ParseTree) :
    Prop where
  parts : ∃ front e l p back, t.children = front ++ e ++ l ++ p ++ back ∧ Clause .kwExtends own e ∧
    Clause (listKeyword kind) listed l ∧ Clause .kwPermits permitted p ∧
    ∀ x ∈ front ++ back, Beside x
  own_type : ∀ x ∈ own, x.isA .typeType = true
  own_class : own.isSome = true → kind = .class
  listed_types : ∀ x ∈ listed, ∃ first more, IsTypeList x first more
  permitted_types : ∀ x ∈ permitted, ∃ first more, IsTypeList x first more

variable {t : ParseTree} {r : RuleName}

theorem isA_of_isA (h : t.isA r = true) (r' : RuleName) : t.isA r' = decide (r = r') := by
  unfold ParseTree.isA at h ⊢
  rw [beq_iff_eq] at h
  rw [h, Option.some_beq_some, beq_eq_decide]

theorem kind?_of_isA (h : t.isA r = true) : t.kind? = none := by
  cases t with
  | node info cs => rfl
  | _ => cases h

theorem isA_of_kind? {k : Kind} (h : t.kind? = some k) (r : RuleName) : t.isA r = false := by
  cases t with
  | node info cs => cases h
  | _ => rfl

namespace Clause

variable {k : Kind} {part : Option ParseTree} {e : List ParseTree} {r : RuleName}
  (h : Clause k part e) (hpart : ∀ x ∈ part, x.isA r = true)
include h hpart

theorem filter_isA (r' : RuleName) : e.filter (ParseTree.isA r') = if r = r' then part.toList
    else [] := by
  cases h with
  | absent => simp
  | written hkeyword =>
    have ht := isA_of_isA (hpart _ rfl) r'
    rw [List.filter_cons_of_neg (by simp [isA_of_kind? hkeyword])]
    by_cases hr : r = r' <;> simp [ht, hr]

theorem any_kind? (k' : Kind) :
    (e.any fun c => c.kind? == some k') = (decide (k = k') && part.isSome) := by
  cases h with
  | absent => simp
  | written hkeyword => simp [hkeyword, kind?_of_isA (hpart _ rfl), beq_eq_decide]

end Clause

/-- The types that a reading takes from the clauses of a declaration. -/
def takenTypes (own listed permitted : Option ParseTree) : List ParseTree :=
  own.toList ++ if listed.isSome then listed.toList ++ permitted.toList else []

/-- The types that a declaration names as its supertypes, one by one. -/
def writtenTypes (own listed : Option ParseTree) : List ParseTree :=
  own.toList ++ listed.toList.flatMap fun l => l.all .typeType

namespace Heading

variable {kind : SymbolKind} {t : ParseTree} {own listed permitted : Option ParseTree}
  (h : Heading kind t own listed permitted)
include h

theorem listed_rule : ∀ x ∈ listed, x.isA .typeList = true := by
  intro x hx
  obtain ⟨first, more, hlist⟩ := h.listed_types x hx
  exact hlist.rule

theorem permitted_rule : ∀ x ∈ permitted, x.isA .typeList = true := by
  intro x hx
  obtain ⟨first, more, hlist⟩ := h.permitted_types x hx
  exact hlist.rule

/-- The children of a rule stand in the clauses, if they stand nowhere beside them. -/
theorem all_eq {r : RuleName} (hr : ∀ x, Beside x → x.isA r = false) :
    t.all r = (if .typeType = r then own.toList else []) ++
      if .typeList = r then listed.toList ++ permitted.toList else [] := by
  obtain ⟨front, e, l, p, back, hchildren, he, hl, hp, hbeside⟩ := h.parts
  have hnone (xs : List ParseTree) (hxs : xs ⊆ front ++ back) : xs.filter (ParseTree.isA r) = [] :=
    List.filter_eq_nil_iff.mpr fun x hx => by simp [hr x (hbeside x (hxs hx))]
  rw [ParseTree.all, hchildren]
  simp only [List.filter_append, he.filter_isA h.own_type, hl.filter_isA h.listed_rule,
    hp.filter_isA h.permitted_rule, hnone front (List.subset_append_left _ _),
    hnone back (List.subset_append_right _ _)]
  by_cases hlist : RuleName.typeList = r <;> simp [hlist]

/-- The keyword of a clause is there just if the clause is. -/
theorem keyword_eq {k : Kind} (hk : ∀ x, Beside x → x.kind? ≠ some k) :
    (t.firstToken? k).isSome = (decide (.kwExtends = k) && own.isSome ||
      decide (listKeyword kind = k) && listed.isSome ||
      decide (.kwPermits = k) && permitted.isSome) := by
  obtain ⟨front, e, l, p, back, hchildren, he, hl, hp, hbeside⟩ := h.parts
  have hnone (xs : List ParseTree) (hxs : xs ⊆ front ++ back) : (xs.any fun c =>
      c.kind? == some k) = false :=
    List.any_eq_false.mpr fun x hx => by simp [hk x (hbeside x (hxs hx))]
  rw [ParseTree.firstToken?, List.isSome_find?, hchildren]
  simp only [List.any_append, he.any_kind? h.own_type, hl.any_kind? h.listed_rule,
    hp.any_kind? h.permitted_rule, hnone front (List.subset_append_left _ _),
    hnone back (List.subset_append_right _ _), Bool.false_or, Bool.or_false]

/-- A reading takes the own supertype, and with a list of supertypes that list and the list of
permitted types. -/
theorem supertypes_eq : supertypes kind t =
    .ok ((takenTypes own listed permitted).map ParseTree.text) := by
  have htypes := h.all_eq (r := .typeType) fun x hx => hx.rule.1
  have hlists := h.all_eq (r := .typeList) fun x hx => hx.rule.2
  have hextends := h.keyword_eq (k := .kwExtends) fun x hx => hx.keyword.1
  have himplements := h.keyword_eq (k := .kwImplements) fun x hx => hx.keyword.2
  simp only [reduceCtorEq, if_true, if_false, List.append_nil, List.nil_append, decide_true,
    decide_false, Bool.true_and, Bool.false_and, Bool.or_false, Bool.false_or]
      at htypes hlists hextends himplements
  have hfirst : t.first? .typeType = own := by
    rw [ParseTree.first?, ← List.head?_filter]
    exact (congrArg List.head? htypes).trans (by cases own <;> rfl)
  unfold supertypes takenTypes
  cases kind with
  | «class» =>
    simp only [hextends, himplements, hlists, hfirst, listKeyword, reduceCtorEq, decide_false,
      decide_true, Bool.false_and, Bool.or_false, Bool.true_and]
    cases own <;> cases listed <;> rfl
  | _ =>
    have hown : own = none := by
      cases own with
      | none => rfl
      | some x => exact absurd (h.own_class rfl) (by simp)
    simp only [hextends, hlists, hown, listKeyword, decide_true, Option.isSome_none, Bool.true_and,
      Bool.false_or]
    cases listed <;> rfl

end Heading

/-! ## What is noted -/

namespace Analyze

variable {c : Setting} {a a' : Analysis}

theorem keeps_hierarchy_refer (f : SymbolId → List String) (n : Nat) (owner : Option SymbolId)
    (source type : String) :
    Keeps (fun a => a.registry.hierarchy = f ∧ a.registry.size = n)
      (refer c owner source type) := by
  refine keeps_bind (keeps_forM _ fun name a ha => ?_) fun _ => keeps_forM _ fun name a ha => ?_
  · rw [run_depend]
    split
    · exact ha
    split
    · cases owner with
      | none => exact ha
      | some id => exact ⟨(funext fun _ => Registry.hierarchy_addDependency _ _ _ _).trans ha.1,
          (Registry.size_change _ _ _).trans ha.2⟩
    · exact ha
  · rw [run_interact]
    split
    · exact ha
    split
    · split <;> exact ha
    · exact ha

theorem inherit_eq_ok {id : SymbolId} {type : String} (hid : id < a.registry.size)
    (h : (inherit c id type).run.run a = (.ok (), a')) : a'.registry.size = a.registry.size ∧ ∀ id',
      a'.registry.hierarchy id' = a.registry.hierarchy id' ++ if id' = id then [resolve c.full type]
        else [] := by
  rw [run_inherit] at h
  obtain ⟨hsupers, hsize⟩ :=
    (keeps_hierarchy_refer (c := c) (withSuper c id type a).registry.hierarchy
    (withSuper c id type a).registry.size (some id) _ type).of_run ⟨rfl, rfl⟩ h
  refine ⟨hsize.trans (Registry.size_change _ _ _), fun id' => ?_⟩
  rw [hsupers, withSuper, Registry.hierarchy_addSuper]
  by_cases hsame : id' = id
  · rw [if_pos hsame, if_pos ⟨hsame.symm, hsame ▸ hid⟩]
  · rw [if_neg hsame, if_neg fun hboth => hsame hboth.1.symm]

/-- The supertypes of a class are noted on it one after the other, and nothing is noted on another
class. -/
theorem forM_inherit_eq_ok {id : SymbolId} {types : List String} (hid : id < a.registry.size)
    (h : (types.forM (inherit c id)).run.run a = (.ok (), a')) : ∀ id',
      a'.registry.hierarchy id' = a.registry.hierarchy id' ++
        if id' = id then types.map (resolve c.full) else [] := by
  induction types generalizing a with
  | nil =>
    cases h
    simp
  | cons type types ih =>
    obtain ⟨⟨⟩, a₁, hfirst, hrest⟩ := bind_eq_ok.mp h
    obtain ⟨hsize, hnoted⟩ := inherit_eq_ok hid hfirst
    intro id'
    rw [ih (hsize ▸ hid) hrest id', hnoted id', List.append_assoc]
    split <;> rfl

end Analyze

theorem takenTypes_eq_writtenTypes_iff {kind : SymbolKind} {own listed permitted : Option ParseTree}
    {full : Table String} (h : Heading kind t own listed permitted)
    (hcomma : expand full "," ≠ "") :
    (takenTypes own listed permitted).map (fun x => resolve full x.text) =
        (writtenTypes own listed).map (fun x => resolve full x.text) ↔
      ∀ list ∈ listed, (list.all .typeType).length = 1 ∧ permitted = none := by
  unfold takenTypes writtenTypes
  rw [List.map_append, List.map_append, List.append_cancel_left_eq]
  cases listed with
  | none => simp
  | some list =>
    obtain ⟨first, more, hlist⟩ := h.listed_types list rfl
    simp only [Option.isSome_some, if_true, Option.toList_some, List.flatMap_singleton,
      hlist.types_eq, List.map_cons, List.singleton_append, List.cons.injEq,
      hlist.resolve_eq_iff hcomma]
    cases more <;> cases permitted <;> simp [hlist.types_eq]

/-- **Supertypes are noted by clause.** A class or interface declaration that is entered has its own
supertype and its list of supertypes noted on its symbol, each as one entry with the names in it
resolved, and a list of permitted types after them as well if there is a list of supertypes; no
other symbol comes to inherit from anything. So the supertypes that are written are noted one by one
just if the list of them, if there is one, has one type only and comes without a list of permitted
types. -/
theorem supertypes_noted_by_clause (c : Setting) (kind : SymbolKind) (t : ParseTree)
    (own listed permitted : Option ParseTree) (a a' : Analysis) (id : SymbolId)
    (hheading : Heading kind t own listed permitted) (hid : id < a.registry.size)
    (hrun : (Analyze.enterType c kind t).run.run a = (.ok id, a')) :
    a'.registry.hierarchy id =
      a.registry.hierarchy id ++ (takenTypes own listed permitted).map (fun x =>
        resolve c.full x.text) ∧
    (∀ id' ≠ id, a'.registry.hierarchy id' = a.registry.hierarchy id') ∧
    (expand c.full "," ≠ "" →
      (a'.registry.hierarchy id =
          a.registry.hierarchy id ++ (writtenTypes own listed).map (fun x =>
            resolve c.full x.text) ↔
        ∀ list ∈ listed, (list.all .typeType).length = 1 ∧ permitted = none)) := by
  obtain ⟨-, types, htypes, hsupers⟩ := Analyze.enterType_eq_ok hrun
  rw [hheading.supertypes_eq, Except.ok.injEq] at htypes
  have hnoted := Analyze.forM_inherit_eq_ok hid hsupers
  have hown : a'.registry.hierarchy id =
      a.registry.hierarchy id ++ (takenTypes own listed permitted).map (fun x =>
        resolve c.full x.text) := by
    rw [hnoted id, if_pos rfl, ← htypes, List.map_map]
    rfl
  refine ⟨hown, fun id' hne => ?_, fun hcomma => ?_⟩
  · rw [hnoted id', if_neg hne, List.append_nil]
  · rw [hown, List.append_cancel_left_eq]
    exact takenTypes_eq_writtenTypes_iff hheading hcomma

namespace Profiler

def typeNamed (name : String) : ParseTree := branch .typeType [named name]

/-- An interface that extends two others. -/
def pairInterface : ParseTree :=
  branch .interfaceDeclaration [leaf .kwInterface "interface", named "A", leaf .kwExtends "extends",
    branch .typeList [typeNamed "B", leaf .comma ",", typeNamed "C"], branch .interfaceBody []]

/-- A class that implements an interface and permits a class below it. -/
def sealedClass : ParseTree :=
  branch .classDeclaration [leaf .kwClass "class", named "D", leaf .kwImplements "implements",
    branch .typeList [typeNamed "B"], leaf .kwPermits "permits", branch .typeList [typeNamed "E"],
    branch .classBody []]

def interfaceNamed (name : String) : ParseTree :=
  branch .interfaceDeclaration [leaf .kwInterface "interface", named name, branch .interfaceBody []]

def clausesParser : Parser :=
  parserOf [("A", branch .compilationUnit
    [pairInterface, interfaceNamed "B", interfaceNamed "C", sealedClass,
      classNamed (named "E") []])]

def clausesFiles : Files := ⟨[(["A.java"], .text "A")]⟩

/-- The project after the file was collected. -/
def clausesScene : Scene Profiler := after clausesParser [.collect clausesFiles]
    (opened ["A.java"] {})

/-- What a reading of the file knows. -/
def clausesSetting : Setting :=
  setting "A.java" "A" ((clausesScene.self.full.get? "A.java").getD ∅) clausesScene

/-- The reading of the heading of a declaration in the file. -/
def enterClauses (kind : SymbolKind) (t : ParseTree) : Except Fault SymbolId × Analysis :=
  (Analyze.enterType clausesSetting kind t).run.run (analysis clausesScene)

theorem pairInterface_heading : Heading .interface pairInterface none
    (some (branch .typeList [typeNamed "B", leaf .comma ",", typeNamed "C"])) none where
  parts := ⟨[leaf .kwInterface "interface", named "A"], [], _, [], [branch .interfaceBody []], rfl,
    .absent, .written rfl, .absent, by
      intro x hx
      simp only [List.cons_append, List.nil_append, List.mem_cons, List.not_mem_nil, or_false] at hx
      rcases hx with rfl | rfl | rfl <;> exact ⟨by decide, by decide⟩⟩
  own_type := by simp
  own_class := by simp
  listed_types := by
    rintro x ⟨⟩
    exact ⟨typeNamed "B", [(leaf .comma ",", typeNamed "C")], rfl, rfl, rfl, by decide, by decide⟩
  permitted_types := by simp

/-- The interface that extends two others comes to have one entry for both of them. -/
theorem pairInterface_noted_by_clause :
    (enterClauses .interface pairInterface).1 = .ok 5 ∧
    (enterClauses .interface pairInterface).2.registry.hierarchy 5 = ["B,C"] ∧
    (enterClauses .interface pairInterface).2.registry.hierarchy 5 ≠ ["B", "C"] := by
  have hok : (enterClauses .interface pairInterface).1 = .ok 5 := by decide +kernel
  obtain ⟨hnoted, -, hiff⟩ :=
    supertypes_noted_by_clause clausesSetting .interface pairInterface none _ none
    (analysis clausesScene) (enterClauses .interface pairInterface).2 5 pairInterface_heading
      (by decide +kernel)
    (Prod.ext hok rfl)
  refine ⟨hok, hnoted.trans (by decide +kernel), fun hsingle => ?_⟩
  have hone := (hiff (by decide +kernel)).mp (hsingle.trans (by decide +kernel)) _ rfl
  exact absurd hone.1 (by decide)

/-- Supertypes are not noted one by one: two that an interface extends are one entry, and a class
that may be below another is an entry of it. -/
theorem supertypes_not_one_by_one :
    (enterClauses .interface pairInterface).2.registry.hierarchy 5 = ["B,C"] ∧
    (enterClauses .class sealedClass).1 = .ok 8 ∧
    (enterClauses .class sealedClass).2.registry.hierarchy 8 = ["B", "E"] := by
  decide +kernel

end Profiler

end Coupling.Project
