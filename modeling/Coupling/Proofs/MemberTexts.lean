import Coupling.Proofs.Projects
import Coupling.Proofs.TypeTexts

/-!
# Whose members a text names

The text of a class should name the members declared in it, and not those of a class or interface
declared inside it. A reading only knows the class and the interface that were entered last. So a
declaration with no other one in its body has the text that it should have, and one with an inner
class has lost the members before it and has those of the inner class as its own
(`texts_by_last_entered`). Interface methods with type parameters are in no text.
-/

namespace Coupling.Project

open Java (ParseTree RuleName)

/-- Whether a node declares a class or interface. -/
def declaresType (t : ParseTree) : Bool := (t.form?.bind bodyRule?).isSome

/-- The names of a class or interface and of all members read inside it. -/
def namesInside (t : ParseTree) : List String :=
  nameGiven t ::
    if t.isA .classDeclaration then namedMethods (inside t) ++ namedFields (inside t) else
    ((inside t).filter fun m => m.isA .interfaceMethodDeclaration ||
      m.isA .genericInterfaceMethodDeclaration).map
      fun m => (m.first? .interfaceCommonBodyDeclaration).elim "" nameGiven

theorem isA_of_declaresType {t : ParseTree} (h : declaresType t = false) :
    t.isA .classDeclaration = false ∧ t.isA .interfaceDeclaration = false := by
  cases t with
  | token | skipped | missing => exact ⟨rfl, rfl⟩
  | node info cs =>
    have hnone : bodyRule? info.form = none :=
      Option.not_isSome_iff_eq_none.mp (Bool.eq_false_iff.mp h)
    rw [Describe.isA_node, Describe.isA_node, beq_eq_false_iff_ne, beq_eq_false_iff_ne]
    cases hform : info.form with
    | rule r =>
      rw [hform] at hnone
      constructor <;> (rintro ⟨⟩; cases hnone)
    | expr e => exact ⟨nofun, nofun⟩

/-- A declaration with no other one in its body has all members read inside it in its text. -/
theorem namesFor_eq_namesInside {t : ParseTree} (h : ∀ n ∈ inside t, declaresType n = false)
    (hgeneric : ∀ n ∈ inside t, n.isA .genericInterfaceMethodDeclaration = false) :
    namesFor t = namesInside t := by
  have hclass : sinceLast .classDeclaration t = inside t :=
    List.rtakeWhile_eq_self_iff.mpr fun n hn => by rw [(isA_of_declaresType (h n hn)).1]; rfl
  have hinterface : sinceLast .interfaceDeclaration t = inside t :=
    List.rtakeWhile_eq_self_iff.mpr fun n hn => by rw [(isA_of_declaresType (h n hn)).2]; rfl
  have hmethods : (inside t).filter (fun m => m.isA .interfaceMethodDeclaration ||
      m.isA .genericInterfaceMethodDeclaration) =
        (inside t).filter (ParseTree.isA .interfaceMethodDeclaration) :=
    List.filter_congr fun n hn => by rw [hgeneric n hn, Bool.or_false]
  rw [namesFor, namesInside, hclass, hinterface, hmethods]
  rfl

mutual

/-- The declarations that are read are left in another order than they are entered in. -/
theorem described_perm : ∀ t : ParseTree, (described t).Perm ((reached t).filter declaresType)
  | .token _ | .skipped _ | .missing _ => .nil
  | .node info cs => by
    rw [described, reached, List.filter_cons, declaresType, ParseTree.form?, Option.bind_some]
    cases bodyRule? info.form with
    | none => exact describedOf_perm cs
    | some rule => exact (List.perm_append_singleton _ _).trans (.cons _ (describedIn_perm rule cs))

theorem describedOf_perm :
    ∀ ts : List ParseTree, (describedOf ts).Perm ((reachedOf ts).filter declaresType)
  | [] => .nil
  | t :: ts => by
    rw [describedOf, reachedOf, List.filter_append]
    exact (described_perm t).append (describedOf_perm ts)

theorem describedIn_perm (rule : RuleName) :
    ∀ ts : List ParseTree, (describedIn rule ts).Perm ((reachedIn rule ts).filter declaresType)
  | [] => .nil
  | .token _ :: ts | .skipped _ :: ts | .missing _ :: ts => describedIn_perm rule ts
  | .node info cs :: ts => by
    rw [describedIn, reachedIn]
    split
    · exact describedOf_perm cs
    · exact describedIn_perm rule ts

end

/-- **A text names what was noted since a class or interface was last entered.** A reading of a tree
that comes to its end gives a text for each class and interface declaration that is not in the head
of another one, in the order of their ends. It has the words of the name, and then those of the
methods and fields that come, inside the declaration, after the last class declared there; for an
interface, of the methods without type parameters after the last interface declared there. These are
all members read inside it if no class or interface is declared there and no interface method has
type parameters. -/
theorem texts_by_last_entered {tree : ParseTree} {c : ClassTexts} (h : classTexts tree = .ok c) :
    c.texts = (described tree).map (fun t =>
      " ".intercalate ((namesFor t).flatMap Words.ofIdentifier)) ∧
      (described tree).Perm ((reached tree).filter declaresType) ∧
      ∀ t ∈ described tree, (∀ n ∈ inside t, declaresType n = false) →
        (∀ n ∈ inside t, n.isA .genericInterfaceMethodDeclaration = false) →
        namesFor t = namesInside t :=
  ⟨texts_eq_of_classTexts h, described_perm tree, fun _ _ => namesFor_eq_namesInside⟩

open Profiler (branch leaf named classNamed methodNamed)

def fieldNamed (name : String) : ParseTree :=
  branch .fieldDeclaration [branch .typeType [named "T"],
    branch .variableDeclarators [branch .variableDeclarator
      [branch .variableDeclaratorId [named name]]]]

def interfaceNamed (name : String) (body : List ParseTree) : ParseTree :=
  branch .interfaceDeclaration [leaf .kwInterface "interface", named name,
    branch .interfaceBody body]

/-- A method of an interface, with type parameters or without. -/
def interfaceMethod (rule : RuleName) (name : String) : ParseTree :=
  branch rule [branch .interfaceCommonBodyDeclaration [named name]]

/-- A class with a method between two fields, and an interface. -/
def sideBySideTypes : ParseTree :=
  branch .compilationUnit
    [classNamed (named "FileReader") [fieldNamed "lineCount", methodNamed "openAll" [],
      fieldNamed "size"],
      interfaceNamed "Store" [interfaceMethod .interfaceMethodDeclaration "putItem"]]

theorem sideBySideTypes_texts :
    ∃ c, classTexts sideBySideTypes = .ok c ∧
      c.texts = ["file reader open all line count size", "store put item"] ∧
      (described sideBySideTypes).Perm ((reached sideBySideTypes).filter declaresType) ∧
      ∀ t ∈ described sideBySideTypes, namesFor t = namesInside t := by
  have hok : (classTexts sideBySideTypes).toBool = true := by decide +kernel
  have hinside : ∀ t ∈ described sideBySideTypes, (∀ n ∈ inside t, declaresType n = false) ∧
      ∀ n ∈ inside t, n.isA .genericInterfaceMethodDeclaration = false := by decide +kernel
  have htexts : (described sideBySideTypes).map
      (fun t => " ".intercalate ((namesFor t).flatMap Words.ofIdentifier)) =
      ["file reader open all line count size", "store put item"] := by decide +kernel
  cases hc : classTexts sideBySideTypes with
  | error f => cases hc ▸ hok
  | ok c =>
    obtain ⟨htext, hperm, hnames⟩ := texts_by_last_entered hc
    exact ⟨c, rfl, htext.trans htexts, hperm, fun t ht => hnames t ht (hinside t ht).1
      (hinside t ht).2⟩

/-- A class with a method, and a class with another method in it. -/
def nestedTypes : ParseTree :=
  branch .compilationUnit [classNamed (named "A") [methodNamed "f" [],
    classNamed (named "B") [methodNamed "g" []]]]

/-- An interface with a method that has type parameters. -/
def genericStore : ParseTree :=
  branch .compilationUnit
    [interfaceNamed "I" [interfaceMethod .genericInterfaceMethodDeclaration "f"]]

/-- **An inner class takes the members of the outer one.** The text of `A` has the method of `B` in
place of its own, and the method of `I` is in no text. -/
theorem inner_class_takes_members :
    (classTexts nestedTypes).toOption.map ClassTexts.texts = some ["b g", "a g"] ∧
      (classTexts genericStore).toOption.map ClassTexts.texts = some ["i"] := by
  decide +kernel

end Coupling.Project
