import TextureLoom.Atlas.Rect

set_option autoImplicit false

namespace TextureLoom.Atlas

/-- Which free rectangle takes a new one. -/
inductive Fit where
  /-- The one with the least area left over, then the shortest side. -/
  | bestArea
  /-- The one with the shortest side left over, then the shortest longer side. -/
  | bestShortSide
deriving DecidableEq, Repr

/-- What is left over when `width` by `height` goes into a rectangle; less is better, the first number first. -/
def Fit.leftover (fit : Fit) (r : Rect) (width height : Nat) : Nat × Nat :=
  let dx := r.width - width
  let dy := r.height - height
  match fit with
  | .bestArea => (r.width * r.height - width * height, min dx dy)
  | .bestShortSide => (min dx dy, max dx dy)

/-- Pairs in dictionary order. -/
def isBetter (a b : Nat × Nat) : Bool := a.1 < b.1 || (a.1 == b.1 && a.2 < b.2)

/-- A square or rectangle being filled, with a list of free rectangles. -/
structure Bin where
  width : Nat
  height : Nat
  free : List Rect
deriving DecidableEq, Repr, Inhabited

namespace Bin

/-- A bin in which nothing is placed. -/
def empty (width height : Nat) : Bin := ⟨width, height, [⟨0, 0, width, height⟩]⟩

/-- Whether `a` stays beside the rectangles behind it, and those that stay beside `a`: a rectangle inside another
one goes, and `a` goes with the first that contains it. -/
def absorb (a : Rect) : List Rect → Bool × List Rect
  | [] => (true, [])
  | b :: rest =>
    if a.contains b then absorb a rest
    else if b.contains a then (false, b :: rest)
    else
      let (stays, kept) := absorb a rest
      (stays, b :: kept)

theorem absorb_length (a : Rect) (rects : List Rect) : (absorb a rects).2.length ≤ rects.length := by
  induction rects with
  | nil => exact Nat.le_refl 0
  | cons b rest ih =>
    unfold absorb
    split
    · exact Nat.le_succ_of_le ih
    · split
      · exact Nat.le_refl _
      · exact Nat.succ_le_succ ih

/-- The rectangles that lie in no other one. -/
def prune : List Rect → List Rect
  | [] => []
  | a :: rest =>
    if (absorb a rest).1 then a :: prune (absorb a rest).2 else prune (absorb a rest).2
termination_by rects => rects.length
decreasing_by all_goals exact Nat.lt_succ_of_le (absorb_length a rest)

/-- The first of `rects` that joins `a`: the union, and the others. -/
def joinInto (a : Rect) : List Rect → Option (Rect × List Rect)
  | [] => none
  | b :: rest =>
    match a.join? b with
    | some union => some (union, rest)
    | none => (joinInto a rest).map fun (union, others) => (union, b :: others)

theorem joinInto_length {a union : Rect} {rects others : List Rect} (h : joinInto a rects = some (union, others)) :
    others.length + 1 = rects.length := by
  induction rects generalizing others with
  | nil => cases h
  | cons b rest ih =>
    unfold joinInto at h
    split at h
    · cases h; rfl
    · obtain ⟨⟨_, tail⟩, found, same⟩ := Option.map_eq_some_iff.1 h
      cases same
      simp [← ih found]

/-- One join of the first rectangle that has a partner behind it. -/
def joinOnce : List Rect → Option (List Rect)
  | [] => none
  | a :: rest =>
    match joinInto a rest with
    | some (union, others) => some (union :: others)
    | none => (joinOnce rest).map (a :: ·)

theorem joinOnce_length {rects joined : List Rect} (h : joinOnce rects = some joined) :
    joined.length + 1 = rects.length := by
  induction rects generalizing joined with
  | nil => cases h
  | cons a rest ih =>
    unfold joinOnce at h
    split at h
    · cases h; simp [← joinInto_length ‹_›]
    · obtain ⟨tail, found, same⟩ := Option.map_eq_some_iff.1 h
      subst same
      simp [← ih found]

/-- Joins until no two rectangles share a whole edge. -/
def joinAll (rects : List Rect) : List Rect :=
  match h : joinOnce rects with
  | none => rects
  | some joined =>
    have := joinOnce_length h
    joinAll joined
termination_by rects.length

/-- Takes `used` out of the free rectangles. -/
def occupy (b : Bin) (used : Rect) : Bin :=
  { b with free := prune ((b.free.flatMap (·.minus used)).filter fun r => !r.isEmpty) }

/-- Gives `r` back. -/
def release (b : Bin) (r : Rect) : Bin := { b with free := prune (joinAll (b.free ++ [r])) }

/-- The first of the free rectangles that leave least over, if any is large enough. -/
def bestFree? (fit : Fit) (width height : Nat) (free : List Rect) : Option Rect :=
  (free.foldl (fun (best : Option (Rect × (Nat × Nat))) r =>
    if r.width < width ∨ r.height < height then best
    else
      let score := fit.leftover r width height
      match best with
      | none => some (r, score)
      | some (_, bestScore) => if isBetter score bestScore then some (r, score) else best) none).map (·.1)

/-- Places a rectangle at the top left corner of the best free one. -/
def insert (b : Bin) (width height : Nat) (fit : Fit) : Option (Rect × Bin) :=
  if width = 0 ∨ height = 0 then none
  else (bestFree? fit width height b.free).map fun r =>
    let placed : Rect := ⟨r.x, r.y, width, height⟩
    (placed, b.occupy placed)

end Bin

end TextureLoom.Atlas
