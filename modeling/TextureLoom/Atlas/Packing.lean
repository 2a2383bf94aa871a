import TextureLoom.Table
import TextureLoom.Atlas.Bin
import TextureLoom.Atlas.Entry

set_option autoImplicit false

namespace TextureLoom.Atlas

def Placement.rect (p : Placement) : Rect := ⟨p.x, p.y, p.width, p.height⟩

/-- A rectangle to place for an id. -/
structure Item where
  id : Nat
  width : Nat
  height : Nat
deriving DecidableEq, Repr

def Item.area (item : Item) : Nat := item.width * item.height

/-- Side and number of layers of an atlas image. -/
structure Capacity where
  side : Nat
  layers : Nat
deriving DecidableEq, Repr

/-- Empty bins for the layers. -/
def Capacity.bins (c : Capacity) : List Bin := List.replicate c.layers (Bin.empty c.side c.side)

/-- A place in the first bin that takes the rectangle; the bins are those of the layers from `layer` on. -/
def placeFrom (fit : Fit) (width height layer : Nat) : List Bin → Option (Placement × List Bin)
  | [] => none
  | bin :: rest =>
    match bin.insert width height fit with
    | some (r, bin) => some (⟨r.x, r.y, width, height, layer⟩, bin :: rest)
    | none => (placeFrom fit width height (layer + 1) rest).map fun (place, rest) => (place, bin :: rest)

/-- A place for each item, given in order. -/
def placeAll : List Bin → List Item → Option (Table Nat Placement)
  | _, [] => some []
  | bins, item :: rest => do
    let (place, bins) ← placeFrom .bestShortSide item.width item.height 0 bins
    pure ((item.id, place) :: (← placeAll bins rest))

/-- A capacity with places for all items. -/
structure Plan where
  capacity : Capacity
  places : Table Nat Placement
deriving DecidableEq, Repr

/-- The plan for a capacity, if it holds all items. -/
def planFor? (items : List Item) (c : Capacity) : Option Plan :=
  (placeAll c.bins items).map fun places => ⟨c, places⟩

/-- The allowed sides above a side. -/
def sidesAbove (side : Nat) : List Nat := allowedSides.filter fun s => decide (side < s)

/-- Capacities of one side with `first` to `last` layers. -/
def capacitiesOf (side first last : Nat) : List Capacity :=
  (List.range' first (last + 1 - first)).map fun layers => ⟨side, layers⟩

/-- How large an image a repack may make. -/
inductive RepackMode where
  /-- The least side that holds all, then the fewest layers. -/
  | tightest
  /-- As large as the present one. -/
  | keepCapacity
  /-- As large as the present one, with more layers, or with a longer side. -/
  | allowGrowth
deriving DecidableEq, Repr

/-- The capacities that a repack tries, in order. -/
def RepackMode.capacities (mode : RepackMode) (present : Capacity) (maxLayers : Nat) : List Capacity :=
  match mode with
  | .tightest => allowedSides.flatMap fun side => capacitiesOf side 1 maxLayers
  | .keepCapacity => [present]
  | .allowGrowth =>
    capacitiesOf present.side present.layers (max maxLayers present.layers)
      ++ (sidesAbove present.side).flatMap fun side => capacitiesOf side 1 maxLayers

/-- The capacities that an image grows through until a rectangle fits: more layers if the rectangle fits the side, then
longer sides. -/
def growthSteps (present : Capacity) (maxLayers width height : Nat) : List Capacity :=
  if width ≤ present.side ∧ height ≤ present.side then
    capacitiesOf present.side (present.layers + 1) maxLayers
      ++ (sidesAbove present.side).map fun side => ⟨side, max present.layers maxLayers⟩
  else (sidesAbove present.side).map fun side => ⟨side, present.layers⟩

end TextureLoom.Atlas
