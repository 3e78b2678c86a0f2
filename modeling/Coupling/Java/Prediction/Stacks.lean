import Std.Data.HashMap

/-!
# Sets of call stacks

Prediction follows many call stacks at once. A set of stacks is a node of a shared graph: whether
the empty stack belongs to it, and for each place on top the set of the stacks below that place.
Nodes are kept once each in a `Pool`, so that two sets are equal if and only if their numbers are.

Node 0 holds the empty stack alone. Where nothing is known about the callers, the empty stack stands
for every stack, and merging with it gives it back.
-/

namespace Coupling.Java

/-- A set of stacks, with the nodes below numbered. -/
structure StackNode where
  bottom : Bool
  frames : List (Nat × Nat)
deriving DecidableEq, Repr, Inhabited, Hashable

/-- The stack sets in use, and the unions already formed. -/
structure Pool where
  nodes : Array StackNode
  numbers : Std.HashMap StackNode Nat
  unions : Std.HashMap (Bool × Nat × Nat) Nat
deriving Inhabited

namespace Pool

/-- The pool that knows the empty stack only. -/
def initial : Pool :=
  let node : StackNode := ⟨true, []⟩
  ⟨#[node], (∅ : Std.HashMap StackNode Nat).insert node 0, ∅⟩

def node (p : Pool) (i : Nat) : StackNode := (p.nodes[i]?).getD ⟨false, []⟩

/-- The number of a node, which is added if it is new. -/
def number (p : Pool) (n : StackNode) : Nat × Pool :=
  match p.numbers[n]? with
  | some i => (i, p)
  | none =>
    let i := p.nodes.size
    (i, { p with nodes := p.nodes.push n, numbers := p.numbers.insert n i })

/-- The stacks of `below`, each with a place on top. -/
def push (p : Pool) (place below : Nat) : Nat × Pool := p.number ⟨false, [(place, below)]⟩

/-- Puts a frame among frames sorted by place; the stacks below the same place are united. -/
def insertFrame (unite : Pool → Nat → Nat → Nat × Pool) (f : Nat × Nat) :
    List (Nat × Nat) → Pool → List (Nat × Nat) × Pool
  | [], p => ([f], p)
  | g :: gs, p =>
    if f.1 < g.1 then (f :: g :: gs, p)
    else if f.1 = g.1 then
      let (below, p) := unite p g.2 f.2
      ((g.1, below) :: gs, p)
    else
      let (rest, p) := insertFrame unite f gs p
      (g :: rest, p)

/-- The union of two sets. With `anyCaller` the empty stack absorbs every other. The first argument
bounds the depth of the sets. -/
def unionUpTo (anyCaller : Bool) : Nat → Pool → Nat → Nat → Nat × Pool
  | 0, p, a, _ => (a, p)
  | n + 1, p, a, b =>
    if a = b then (a, p)
    else if anyCaller && (a == 0 || b == 0) then (0, p)
    else
      match p.unions[(anyCaller, a, b)]? with
      | some c => (c, p)
      | none =>
        let na := p.node a
        let nb := p.node b
        let (frames, p) := nb.frames.foldl (fun (acc : List (Nat × Nat) × Pool) f =>
          insertFrame (unionUpTo anyCaller n) f acc.1 acc.2) (na.frames, p)
        let (c, p) := p.number ⟨na.bottom || nb.bottom, frames⟩
        (c, { p with unions := p.unions.insert (anyCaller, a, b) c })

/-- The union of two sets. -/
def union (anyCaller : Bool) (p : Pool) (a b : Nat) : Nat × Pool :=
  unionUpTo anyCaller (p.nodes.size + 1) p a b

/-- The set of one stack, given from its top. -/
def ofStack (p : Pool) : List Nat → Nat × Pool
  | [] => (0, p)
  | f :: stack =>
    let (below, p) := p.ofStack stack
    p.push f below

end Pool

end Coupling.Java
