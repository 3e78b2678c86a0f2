/-!
# Tables

A table under text keys that keeps its entries in the order in which their keys first came. Putting
a value under a key that is there replaces it in place.
-/

namespace Coupling

/-- Values under keys, in order of the keys' first appearance. -/
structure Table (α : Type) where
  entries : List (String × α)
deriving Inhabited, Repr

namespace Table

variable {α : Type}

def empty : Table α := ⟨[]⟩

instance : EmptyCollection (Table α) := ⟨empty⟩

/-- The value of the first entry under a key. -/
def lookIn (key : String) : List (String × α) → Option α
  | [] => none
  | (k, v) :: rest => if key = k then some v else lookIn key rest

/-- The value under a key. -/
def get? (t : Table α) (key : String) : Option α := lookIn key t.entries

def contains (t : Table α) (key : String) : Bool := (t.get? key).isSome

def keys (t : Table α) : List String := t.entries.map (·.1)

def values (t : Table α) : List α := t.entries.map (·.2)

def size (t : Table α) : Nat := t.entries.length

/-- Replaces the value of the first entry under a key, or adds an entry at the end. -/
def putInto (key : String) (value : α) : List (String × α) → List (String × α)
  | [] => [(key, value)]
  | (k, v) :: rest => if key = k then (k, value) :: rest else (k, v) :: putInto key value rest

/-- Puts a value under a key. -/
def put (t : Table α) (key : String) (value : α) : Table α := ⟨putInto key value t.entries⟩

/-- Puts every entry of another table, in its order. -/
def update (t other : Table α) : Table α := other.entries.foldl (fun t e => t.put e.1 e.2) t

def ofList (entries : List (String × α)) : Table α := update empty ⟨entries⟩

/-- The value under a key, or the value given. -/
def getD (t : Table α) (key : String) (default : α) : α := (t.get? key).getD default

@[simp] theorem get?_empty (key : String) : (∅ : Table α).get? key = none := rfl

@[simp] theorem lookIn_putInto (key k : String) (value : α) (es : List (String × α)) :
    lookIn k (putInto key value es) = if k = key then some value else lookIn k es := by
  induction es with
  | nil => simp [putInto, lookIn]
  | cons e es ih => grind [putInto, lookIn]

/-- A key has the value that was put under it last. -/
@[simp] theorem get?_put (t : Table α) (key k : String) (value : α) :
    (t.put key value).get? k = if k = key then some value else t.get? k :=
  lookIn_putInto key k value t.entries

end Table

end Coupling
