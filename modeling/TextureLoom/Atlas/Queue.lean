set_option autoImplicit false

namespace TextureLoom.Atlas

/-- Ids waiting in order, each at most once. An id that was taken out stays in `order` until the next drain. -/
structure Queue where
  order : Array Nat
  /-- By id, whether it waits. -/
  waiting : Array Bool

namespace Queue

/-- An empty queue for ids below `count`. -/
def create (count : Nat) : Queue := ⟨#[], Array.replicate count false⟩

def contains (q : Queue) (id : Nat) : Bool := q.waiting.getD id false

/-- Puts an id at the end unless it waits already. -/
def push (q : Queue) (id : Nat) : Queue :=
  if id < q.waiting.size ∧ !q.contains id then
    ⟨q.order.push id, q.waiting.setIfInBounds id true⟩
  else q

/-- Takes an id out. -/
def remove (q : Queue) (id : Nat) : Queue := { q with waiting := q.waiting.setIfInBounds id false }

/-- The waiting ids in order, and the empty queue. -/
def drain (q : Queue) : List Nat × Queue :=
  let (drained, waiting) := q.order.foldl (fun (drained, waiting) id =>
    if waiting.getD id false then (drained.push id, waiting.setIfInBounds id false) else (drained, waiting))
    (#[], q.waiting)
  (drained.toList, ⟨#[], waiting⟩)

/-- Whether nothing is in line, not even an id that was taken out. -/
def isEmpty (q : Queue) : Bool := q.order.isEmpty

end Queue

end TextureLoom.Atlas
