import Mathlib.Data.List.DropRight
import Mathlib.Data.List.Forall2
import Coupling.Project.ClassText
import Coupling.Proofs.Steps

/-!
# The texts of the classes of a file

A reading enters the nodes of a tree from top to bottom, but of a class or interface declaration
only what is in its body (`reached`). Each such declaration has its text added when it is left
(`described`): the words of its name, and of the members that have been noted since a class or an
interface was last entered (`textFor`). The induction over the tree carries both what is added and
what is noted (`Reads`).

A tree is flat if no class or interface is declared inside another one, inside a method, or in a
package or import declaration (`flat`); it is if all of them stand at the top level. A flat tree has
one text for each class and interface, in their order, and each text begins with the words of the
name of its class or interface (`texts_of_classTexts`).
-/

namespace Coupling.Project

open Java (ParseTree NodeInfo RuleName)
open Steps

/-! ## Flat trees -/

mutual

/-- Whether there is no class or interface declaration in a tree. -/
def typeFree : ParseTree → Bool
  | .node info cs =>
    match Role.ofForm info.form with
    | .type _ => false
    | _ => allTypeFree cs
  | _ => true

def allTypeFree : List ParseTree → Bool
  | [] => true
  | t :: ts => typeFree t && allTypeFree ts

end

mutual

/-- Whether no class or interface is declared inside another one, inside a method, or in a package
or import declaration. -/
def flat : ParseTree → Bool
  | .node info cs =>
    match Role.ofForm info.form with
    | .field | .other => allFlat cs
    | _ => allTypeFree cs
  | _ => true

def allFlat : List ParseTree → Bool
  | [] => true
  | t :: ts => flat t && allFlat ts

end

mutual

/-- The class and interface declarations of a flat tree. -/
def typeNodes : ParseTree → List ParseTree
  | .node info cs =>
    match Role.ofForm info.form with
    | .type _ => [.node info cs]
    | .field | .other => typeNodesOf cs
    | _ => []
  | _ => []

def typeNodesOf : List ParseTree → List ParseTree
  | [] => []
  | t :: ts => typeNodes t ++ typeNodesOf ts

end

/-- The name that a declaration gives. -/
def nameGiven (t : ParseTree) : String := ((t.first? .identifier).map ParseTree.text).getD ""

/-- A text begins with the words of a name. -/
def BeginsWith (name text : String) : Prop :=
  ∃ rest, text = " ".intercalate (Words.ofIdentifier name ++ rest)

/-! ## What a reading comes to -/

/-- The rule of the body of a class or interface declaration. -/
def bodyRule? : Java.Form → Option RuleName
  | .rule .classDeclaration => some .classBody
  | .rule .interfaceDeclaration => some .interfaceBody
  | _ => none

mutual

/-- The nodes that are read, from top to bottom; of a class or interface declaration only its body
is. -/
def reached : ParseTree → List ParseTree
  | .node info cs => .node info cs :: (bodyRule? info.form).elim (reachedOf cs) fun rule =>
    reachedIn rule cs
  | _ => []

def reachedOf : List ParseTree → List ParseTree
  | [] => []
  | t :: ts => reached t ++ reachedOf ts

def reachedIn (rule : RuleName) : List ParseTree → List ParseTree
  | [] => []
  | .node info cs :: ts => if info.form.ruleName = rule then reachedOf cs else reachedIn rule ts
  | _ :: ts => reachedIn rule ts

end

mutual

/-- The class and interface declarations that are read, in the order in which they end. -/
def described : ParseTree → List ParseTree
  | .node info cs =>
    (bodyRule? info.form).elim (describedOf cs) fun rule => describedIn rule cs ++ [.node info cs]
  | _ => []

def describedOf : List ParseTree → List ParseTree
  | [] => []
  | t :: ts => described t ++ describedOf ts

def describedIn (rule : RuleName) : List ParseTree → List ParseTree
  | [] => []
  | .node info cs :: ts => if info.form.ruleName = rule then describedOf cs else describedIn rule ts
  | _ :: ts => describedIn rule ts

end

/-- The nodes that are read inside a node. -/
def inside (t : ParseTree) : List ParseTree := (reached t).tail

/-! ## The members that a text names -/

/-- The names of the methods among some nodes. -/
def namedMethods (ns : List ParseTree) : List String :=
  (ns.filter (ParseTree.isA .methodDeclaration)).map nameGiven

/-- The names of the fields that a field declaration declares. -/
def declarators (t : ParseTree) : List String :=
  (t.first? .variableDeclarators).elim [] fun list => (list.all .variableDeclarator).map fun d =>
    (d.first? .variableDeclaratorId).elim "" nameGiven

def namedFields (ns : List ParseTree) : List String :=
  (ns.filter (ParseTree.isA .fieldDeclaration)).flatMap declarators

/-- The names of the interface methods without type parameters among some nodes. -/
def namedInterfaceMethods (ns : List ParseTree) : List String :=
  (ns.filter (ParseTree.isA .interfaceMethodDeclaration)).map fun t =>
    (t.first? .interfaceCommonBodyDeclaration).elim "" nameGiven

/-- What is read inside a node after the last declaration of a rule. -/
def sinceLast (rule : RuleName) (t : ParseTree) : List ParseTree :=
  (inside t).rtakeWhile fun n => !n.isA rule

/-- The names whose words are in the text of a class or interface declaration. -/
def namesFor (t : ParseTree) : List String :=
  nameGiven t :: if t.isA .classDeclaration
    then namedMethods (sinceLast .classDeclaration t) ++ namedFields (sinceLast .classDeclaration t)
    else namedInterfaceMethods (sinceLast .interfaceDeclaration t)

def textFor (t : ParseTree) : String := " ".intercalate ((namesFor t).flatMap Words.ofIdentifier)

/-- What is known of the class entered last when one more node has been entered. -/
def noteClass (c : Option ClassOutline) (t : ParseTree) : Option ClassOutline :=
  if t.isA .classDeclaration then some { name := nameGiven t } else
    c.map fun c =>
      { c with methods := c.methods ++ namedMethods [t], fields := c.fields ++ namedFields [t] }

def noteInterface (i : Option InterfaceOutline) (t : ParseTree) : Option InterfaceOutline :=
  if t.isA .interfaceDeclaration then some { name := nameGiven t } else
    i.map fun i => { i with methods := i.methods ++ namedInterfaceMethods [t] }

theorem foldl_noteClass (c : ClassOutline) (hc : c.methods = [] ∧ c.fields = [])
    (ns : List ParseTree) :
    ∃ c', ns.foldl noteClass (some c) = some c' ∧
      c'.methods = namedMethods (ns.rtakeWhile fun n => !n.isA .classDeclaration) ∧
      c'.fields = namedFields (ns.rtakeWhile fun n => !n.isA .classDeclaration) := by
  induction ns using List.reverseRecOn with
  | nil => exact ⟨c, rfl, hc⟩
  | append_singleton ns t ih =>
    obtain ⟨c', hfold, hmethods, hfields⟩ := ih
    rw [List.foldl_append, hfold, List.foldl_cons,
      List.foldl_nil, noteClass, List.rtakeWhile_concat]
    by_cases h : t.isA .classDeclaration = true
    · simp [h, namedMethods, namedFields]
    · simp [h, hmethods, hfields, namedMethods, namedFields, List.filter_append]

theorem foldl_noteInterface (i : InterfaceOutline) (hi : i.methods = []) (ns : List ParseTree) :
    ∃ i', ns.foldl noteInterface (some i) = some i' ∧
      i'.methods = namedInterfaceMethods (ns.rtakeWhile fun n => !n.isA .interfaceDeclaration) := by
  induction ns using List.reverseRecOn with
  | nil => exact ⟨i, rfl, hi⟩
  | append_singleton ns t ih =>
    obtain ⟨i', hfold, hmethods⟩ := ih
    rw [List.foldl_append, hfold, List.foldl_cons, List.foldl_nil, noteInterface,
      List.rtakeWhile_concat]
    by_cases h : t.isA .interfaceDeclaration = true
    · simp [h, namedInterfaceMethods]
    · simp [h, hmethods, namedInterfaceMethods, List.filter_append]

namespace Describe

variable {α β : Type} {c c' : ClassTexts}

theorem bind_eq_ok {x : Describe α} {f : α → Describe β} {b : β}
    (h : (x >>= f).run c = .ok (b, c')) :
    ∃ a c₁, x.run c = .ok (a, c₁) ∧ (f a).run c₁ = .ok (b, c') := by
  obtain ⟨⟨a, c₁⟩, hx, hf⟩ := except_bind_eq_ok.mp h
  exact ⟨a, c₁, hx, hf⟩

variable {property : String} {ds : List ParseTree}

theorem need_eq_ok {part : Option α} {a : α}
    (h : (need property part : Describe α).run c = .ok (a, c')) :
    part = some a ∧ c' = c := by
  cases part with
  | none => cases h
  | some b =>
    cases h
    exact ⟨rfl, rfl⟩

theorem textOf_eq_ok {part : Option ParseTree} {text : String}
    (h : (textOf part : Describe String).run c = .ok (text, c')) :
    text = (part.map ParseTree.text).getD "" ∧ c' = c := by
  obtain ⟨t, c₁, hneed, h₁⟩ := bind_eq_ok h
  obtain ⟨rfl, rfl⟩ := need_eq_ok hneed
  cases h₁
  exact ⟨rfl, rfl⟩

/-- A step enters nodes and adds the texts of declarations. -/
def Reads (ns ds : List ParseTree) (x : Describe Unit) : Prop :=
  ∀ c c', x.run c = .ok ((), c') →
    c' = ⟨c.texts ++ ds.map textFor, ns.foldl noteClass c.currentClass,
      ns.foldl noteInterface c.currentInterface⟩

theorem reads_nothing : Reads [] [] (pure ()) := by
  rintro c _ ⟨⟩
  simp

theorem Reads.bind {ns ms es : List ParseTree} {x y : Describe Unit} (hx : Reads ns ds x)
    (hy : Reads ms es y) :
    Reads (ns ++ ms) (ds ++ es) (x >>= fun _ => y) := by
  intro c c' h
  obtain ⟨_, c₁, h₁, h₂⟩ := bind_eq_ok h
  rw [hy c₁ c' h₂, hx c c₁ h₁]
  simp

/-! ### Members -/

variable {info : NodeInfo} {cs : List ParseTree}

theorem isA_node (info : NodeInfo) (cs : List ParseTree) (rule : RuleName) :
    (ParseTree.node info cs).isA rule = (info.form.ruleName == rule) := rfl

/-- A node that is neither a declaration of a class or interface nor of a member leaves what is
known. -/
theorem reads_plain (hclass : info.form ≠ .rule .classDeclaration)
    (hinterface : info.form ≠ .rule .interfaceDeclaration)
    (hmethod : info.form ≠ .rule .methodDeclaration) (hfield : info.form ≠ .rule .fieldDeclaration)
    (himethod : info.form ≠ .rule .interfaceMethodDeclaration) : Reads [.node info cs]
    [] (pure ()) := by
  have hnone {rule : RuleName} (h : info.form ≠ .rule rule) (hrule : rule ≠ .expression) :
      (ParseTree.node info cs).isA rule = false := by
    rw [isA_node, beq_eq_false_iff_ne]
    cases hform : info.form with
    | rule r => exact fun h' => h (hform.trans (congrArg _ h'))
    | expr e => exact fun h' => hrule h'.symm
  rintro c _ ⟨⟩
  simp [noteClass, noteInterface, namedMethods, namedFields,
    namedInterfaceMethods, hnone hclass, hnone hinterface, hnone hmethod, hnone hfield,
    hnone himethod]

theorem reads_addMethod (hform : info.form = .rule .methodDeclaration) :
    Reads [.node info cs] [] (addMethod (.node info cs)) := by
  rintro ⟨texts, _ | o, i⟩ c' h
  · cases h
    simp [noteClass, noteInterface, namedInterfaceMethods, isA_node, hform, Java.Form.ruleName]
  · obtain ⟨_, _, ⟨⟩, h₁⟩ := bind_eq_ok h
    obtain ⟨name, c₁, hname, h₂⟩ := bind_eq_ok h₁
    obtain ⟨rfl, rfl⟩ := textOf_eq_ok hname
    cases h₂
    simp [noteClass, noteInterface, namedMethods, namedFields,
      namedInterfaceMethods, isA_node, hform, Java.Form.ruleName, nameGiven]

theorem reads_addInterfaceMethod (hform : info.form = .rule .interfaceMethodDeclaration) :
    Reads [.node info cs] [] (addInterfaceMethod (.node info cs)) := by
  rintro ⟨texts, o, _ | i⟩ c' h
  · cases h
    simp [noteClass, noteInterface, namedMethods, namedFields, isA_node, hform, Java.Form.ruleName]
  · obtain ⟨_, _, ⟨⟩, h₁⟩ := bind_eq_ok h
    obtain ⟨body, c₁, hbody, h₂⟩ := bind_eq_ok h₁
    obtain ⟨hpart, rfl⟩ := need_eq_ok hbody
    obtain ⟨name, c₂, hname, h₃⟩ := bind_eq_ok h₂
    obtain ⟨rfl, rfl⟩ := textOf_eq_ok hname
    cases h₃
    simp [noteClass, noteInterface, namedMethods, namedFields,
      namedInterfaceMethods, isA_node, hform, Java.Form.ruleName, nameGiven, hpart]

theorem addDeclarators_eq_ok (h : (ds.forM fun d => (do
      let id ← need "identifier" (d.first? .variableDeclaratorId)
      let name ← textOf (id.first? .identifier)
      modify fun s => { s with
        currentClass := s.currentClass.map fun c => { c with fields := c.fields ++ [name] } } :
          Describe Unit)).run c =
      .ok ((), c')) : c' = { c with currentClass := c.currentClass.map fun o =>
      { o with fields := o.fields ++ ds.map fun d =>
        (d.first? .variableDeclaratorId).elim "" nameGiven } } := by
  induction ds generalizing c with
  | nil =>
    cases h
    simp
  | cons d ds ih =>
    obtain ⟨_, c₁, hone, hrest⟩ := bind_eq_ok h
    obtain ⟨id, c₂, hid, h₁⟩ := bind_eq_ok hone
    obtain ⟨hpart, rfl⟩ := need_eq_ok hid
    obtain ⟨name, c₃, hname, h₂⟩ := bind_eq_ok h₁
    obtain ⟨rfl, rfl⟩ := textOf_eq_ok hname
    cases h₂
    rw [ih hrest]
    simp [Function.comp_def, hpart, nameGiven]

theorem reads_addFields (hform : info.form = .rule .fieldDeclaration) :
    Reads [.node info cs] [] (addFields (.node info cs)) := by
  rintro ⟨texts, _ | o, i⟩ c' h
  · cases h
    simp [noteClass, noteInterface, namedInterfaceMethods, isA_node, hform, Java.Form.ruleName]
  · obtain ⟨_, _, ⟨⟩, h₁⟩ := bind_eq_ok h
    obtain ⟨list, c₁, hlist, h₂⟩ := bind_eq_ok h₁
    obtain ⟨hpart, rfl⟩ := need_eq_ok hlist
    rw [addDeclarators_eq_ok h₂]
    simp [noteClass, noteInterface, namedMethods, namedFields,
      namedInterfaceMethods, isA_node, hform, Java.Form.ruleName, declarators, hpart]

/-! ### Declarations -/

/-- What the openings of a class and of an interface have in common. -/
theorem open_eq_ok {t : ParseTree} {f : String → ClassTexts → ClassTexts} {body : Option ParseTree}
    {name : String} (h : (do
      let name ← textOf (t.first? .identifier)
      modify (f name)
      let _ ← need property body
      return name : Describe String).run c = .ok (name, c')) : name = nameGiven t ∧ c' =
        f name c := by
  obtain ⟨text, c₁, htext, h₁⟩ := bind_eq_ok h
  obtain ⟨rfl, rfl⟩ := textOf_eq_ok htext
  obtain ⟨_, c₂, ⟨⟩, h₂⟩ := bind_eq_ok h₁
  obtain ⟨_, c₃, hneed, h₃⟩ := bind_eq_ok h₂
  obtain ⟨-, rfl⟩ := need_eq_ok hneed
  cases h₃
  exact ⟨rfl, rfl⟩

/-- A class declaration is entered, its body is read, and its text is made of what has been noted by
then. -/
theorem reads_class (hform : info.form = .rule .classDeclaration)
    (hbody : Reads (reachedIn .classBody cs) ds (visitBody .classBody cs)) :
    Reads (.node info cs :: reachedIn .classBody cs) (ds ++ [.node info cs])
      (visit (.node info cs)) := by
  intro c c' h
  simp only [visit, hform] at h
  obtain ⟨name, c₁, hopen, h⟩ := bind_eq_ok h
  obtain ⟨rfl, rfl⟩ := open_eq_ok hopen
  obtain ⟨_, c₂, hrun, h⟩ := bind_eq_ok h
  obtain ⟨_, _, ⟨⟩, h⟩ := bind_eq_ok h
  obtain ⟨o, hnoted, hmethods, hfields⟩ :=
    foldl_noteClass { name := nameGiven (.node info cs) } ⟨rfl, rfl⟩ (reachedIn .classBody cs)
  cases h
  rw [hbody _ _ hrun]
  simp [hnoted, hmethods, hfields, textFor, namesFor, sinceLast, inside, reached,
    bodyRule?, noteClass, noteInterface, namedInterfaceMethods, isA_node, hform, Java.Form.ruleName]

theorem reads_interface (hform : info.form = .rule .interfaceDeclaration)
    (hbody : Reads (reachedIn .interfaceBody cs) ds (visitBody .interfaceBody cs)) :
    Reads (.node info cs :: reachedIn .interfaceBody cs)
      (ds ++ [.node info cs]) (visit (.node info cs)) := by
  intro c c' h
  simp only [visit, hform] at h
  obtain ⟨name, c₁, hopen, h⟩ := bind_eq_ok h
  obtain ⟨rfl, rfl⟩ := open_eq_ok hopen
  obtain ⟨_, c₂, hrun, h⟩ := bind_eq_ok h
  obtain ⟨_, _, ⟨⟩, h⟩ := bind_eq_ok h
  obtain ⟨o, hnoted, hmethods⟩ :=
    foldl_noteInterface { name := nameGiven (.node info cs) } rfl (reachedIn .interfaceBody cs)
  cases h
  rw [hbody _ _ hrun]
  simp [hnoted, hmethods, textFor, namesFor, sinceLast, inside, reached,
    bodyRule?, noteClass, noteInterface, namedMethods, namedFields, isA_node, hform,
    Java.Form.ruleName]

mutual

theorem reads_visit : ∀ t : ParseTree, Reads (reached t) (described t) (visit t)
  | .token _ | .skipped _ | .missing _ => reads_nothing
  | .node info cs => by
    have hall := reads_visitAll cs
    rw [reached, described]
    by_cases hclass : info.form = .rule .classDeclaration
    · rw [hclass]
      exact reads_class hclass (reads_visitBody .classBody cs)
    by_cases hinterface : info.form = .rule .interfaceDeclaration
    · rw [hinterface]
      exact reads_interface hinterface (reads_visitBody .interfaceBody cs)
    have hbody : bodyRule? info.form = none := by
      unfold bodyRule?
      split <;> simp_all
    rw [hbody, visit]
    split
    · contradiction
    · contradiction
    · next h => exact (reads_addMethod h).bind hall
    · next h => exact (reads_addFields h).bind hall
    · next h => exact (reads_addInterfaceMethod h).bind hall
    · next hmethod hfield himethod =>
        exact (reads_plain hclass hinterface hmethod hfield himethod).bind hall

theorem reads_visitAll : ∀ ts : List ParseTree, Reads (reachedOf ts) (describedOf ts) (visitAll ts)
  | [] => reads_nothing
  | t :: ts => (reads_visit t).bind (reads_visitAll ts)

theorem reads_visitBody (rule : RuleName) :
    ∀ ts : List ParseTree, Reads (reachedIn rule ts) (describedIn rule ts) (visitBody rule ts)
  | [] => reads_nothing
  | .token _ :: ts | .skipped _ :: ts | .missing _ :: ts => reads_visitBody rule ts
  | .node info cs :: ts => by
    rw [reachedIn, describedIn, visitBody]
    split
    · exact reads_visitAll cs
    · exact reads_visitBody rule ts

end

end Describe

/-- The texts of a tree are those of the declarations that are read. -/
theorem texts_eq_of_classTexts {tree : ParseTree} {c : ClassTexts} (h : classTexts tree = .ok c) :
    c.texts = (described tree).map textFor := by
  obtain ⟨⟨⟨⟩, c'⟩, hvisit, h⟩ := except_bind_eq_ok.mp h
  cases h
  rw [Describe.reads_visit tree _ _ hvisit]
  rfl

/-! ## The texts of flat trees -/

theorem isSome_bodyRule? (form : Java.Form) :
    (bodyRule? form).isSome = true ↔ ∃ kind, Role.ofForm form = .type kind := by
  unfold bodyRule?
  split
  · exact ⟨fun _ => ⟨_, rfl⟩, fun _ => rfl⟩
  · exact ⟨fun _ => ⟨_, rfl⟩, fun _ => rfl⟩
  · next hclass hinterface =>
    refine ⟨fun h => (by cases h), fun ⟨kind, h⟩ => ?_⟩
    unfold Role.ofForm at h
    split at h <;> contradiction

mutual

theorem described_of_typeFree : ∀ t : ParseTree, typeFree t = true → described t = []
  | .token _, _ | .skipped _, _ | .missing _, _ => rfl
  | .node info cs, h => by
    rw [typeFree] at h
    rw [described]
    cases hrule : bodyRule? info.form with
    | none =>
      split at h
      · cases h
      · exact describedOf_of_allTypeFree cs h
    | some rule =>
      obtain ⟨kind, hkind⟩ := (isSome_bodyRule? info.form).mp (by rw [hrule]; rfl)
      rw [hkind] at h
      cases h

theorem describedOf_of_allTypeFree : ∀ ts : List ParseTree, allTypeFree ts = true →
    describedOf ts = []
  | [], _ => rfl
  | t :: ts, h => by
    obtain ⟨ht, hts⟩ := Bool.and_eq_true_iff.mp h
    rw [describedOf, described_of_typeFree t ht, describedOf_of_allTypeFree ts hts]
    rfl

end

theorem describedIn_of_allTypeFree (rule : RuleName) :
    ∀ ts : List ParseTree, allTypeFree ts = true → describedIn rule ts = []
  | [], _ => rfl
  | .token _ :: ts, h | .skipped _ :: ts, h | .missing _ :: ts, h =>
    describedIn_of_allTypeFree rule ts (Bool.and_eq_true_iff.mp h).2
  | .node info cs :: ts, h => by
    obtain ⟨ht, hts⟩ := Bool.and_eq_true_iff.mp h
    rw [typeFree] at ht
    rw [describedIn]
    split
    · split at ht
      · cases ht
      · exact describedOf_of_allTypeFree cs ht
    · exact describedIn_of_allTypeFree rule ts hts

mutual

theorem described_of_flat : ∀ t : ParseTree, flat t = true → described t = typeNodes t
  | .token _, _ | .skipped _, _ | .missing _, _ => rfl
  | .node info cs, h => by
    rw [described, typeNodes]
    rw [flat] at h
    cases hrule : bodyRule? info.form with
    | some rule =>
      obtain ⟨kind, hkind⟩ := (isSome_bodyRule? info.form).mp (by rw [hrule]; rfl)
      rw [hkind] at h ⊢
      rw [Option.elim_some, describedIn_of_allTypeFree rule cs h]
      rfl
    | none =>
      cases hrole : Role.ofForm info.form with
      | type kind => cases hrule ▸ (isSome_bodyRule? info.form).mpr ⟨kind, hrole⟩
      | field | other =>
        rw [hrole] at h
        exact describedOf_of_allFlat cs h
      | package | «import» | method =>
        rw [hrole] at h
        exact describedOf_of_allTypeFree cs h

theorem describedOf_of_allFlat : ∀ ts : List ParseTree, allFlat ts = true →
    describedOf ts = typeNodesOf ts
  | [], _ => rfl
  | t :: ts, h => by
    obtain ⟨ht, hts⟩ := Bool.and_eq_true_iff.mp h
    rw [describedOf, typeNodesOf, described_of_flat t ht, describedOf_of_allFlat ts hts]

end

/-- **The texts of a flat tree** are those of its classes and interfaces, in order, and begin with
their names. -/
theorem texts_of_classTexts {tree : ParseTree} {c : ClassTexts} (hflat : flat tree = true)
    (h : classTexts tree = .ok c) :
    List.Forall₂ (fun t text => BeginsWith (nameGiven t) text) (typeNodes tree) c.texts := by
  rw [texts_eq_of_classTexts h, described_of_flat tree hflat, List.forall₂_map_right_iff,
    List.forall₂_same]
  exact fun t _ => ⟨_, rfl⟩

end Coupling.Project
