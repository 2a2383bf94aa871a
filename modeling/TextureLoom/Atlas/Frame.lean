import TextureLoom.Atlas.Basic

set_option autoImplicit false

namespace TextureLoom.Atlas

/-- What a flush works on, and what it has recorded and announced so far. -/
structure Frame where
  atlas : Atlas
  device : Device
  staging : Staging
  commands : Array Command
  events : List Event

namespace Frame

def modifyAtlas (f : Frame) (change : Atlas → Atlas) : Frame := { f with atlas := change f.atlas }

def record (f : Frame) (commands : List Command) : Frame := { f with commands := f.commands ++ commands }

/-- Announces an event, each at most once. -/
def announce (f : Frame) (event : Event) : Frame :=
  if f.events.contains event then f else { f with events := f.events ++ [event] }

/-- The live image in another layout. -/
def turnLive (f : Frame) (layout : Layout) : Frame :=
  let (image, commands) := f.atlas.image.turn layout
  (f.modifyAtlas fun a => { a with image }).record commands

/-- The image of the running repack in another layout. -/
def turnRepack (f : Frame) (layout : Layout) : Frame :=
  match f.atlas.repack with
  | none => f
  | some repack =>
    let (image, commands) := repack.image.turn layout
    (f.modifyAtlas fun a => { a with repack := some { repack with image } }).record commands

/-- Puts bytes into the next range of the staging buffer, if they fit. -/
def stage (f : Frame) (count : Nat) (bytes : ByteArray) : Option (Nat × Frame) :=
  match f.staging.nextRange? count f.atlas.alignment with
  | none => none
  | some (start, stop) => some (start, { f with staging := (f.staging.use stop).write start bytes })

/-- The commands that copy an image into a new one and leave both ready for drawing. -/
def copyCommands (old new : OwnedImage) : List Command × OwnedImage :=
  let (old, first) := old.turn .transferSource
  let (new, second) := new.turn .transferTarget
  let copy := Command.copyImage old.handle new.handle old.capacity.side (min old.capacity.layers new.capacity.layers)
  let (new, third) := new.turn .shaderRead
  let (_, fourth) := old.turn .shaderRead
  (first ++ second ++ [copy] ++ third ++ fourth, new)

/-- Points the rows of all uploaded ids at their places. -/
def refreshEntries (a : Atlas) : Atlas :=
  (List.range a.slots.size).foldl (fun a id =>
    if (a.slot id).shown ∧ (a.placement? id).isSome then a.showPlace id else a) a

/-- Replaces the live image by one of another capacity with the same contents. -/
def grow (f : Frame) (capacity : Capacity) : Bool × Frame :=
  match f.device.createImage capacity.side capacity.layers with
  | .error _ => (false, f.announce .deviceOutOfMemory)
  | .ok (handle, device) =>
    let old := f.atlas.image
    let (commands, image) := copyCommands old ⟨handle, capacity, .undefined⟩
    let f := { f with device }.record commands
    (true, f.modifyAtlas fun a =>
      let a := refreshEntries { a with image, retired := a.retired ++ [old.handle] }
      { a with tableStale := true }.rebuildBins)

/-- Grows to the layers asked for. -/
def growRequested (f : Frame) : Frame :=
  let wanted := f.atlas.layerRequest
  if wanted ≤ f.atlas.layers then f.modifyAtlas fun a => { a with layerRequest := 0 }
  else
    match f.grow ⟨f.atlas.side, wanted⟩ with
    | (true, f) => f.modifyAtlas fun a => { a with layerRequest := 0 }
    | (false, f) => f

end Frame

/-- Gives an id a place in a layer that there is. -/
def place? (a : Atlas) (id width height : Nat) : Option Atlas :=
  (placeFrom .bestArea width height 0 a.bins).map fun (place, bins) =>
    { a with bins }.modifySlot id fun s => { s with place := some place }

/-- Size of a texture with its padding. -/
def paddedSize (a : Atlas) (t : Texture) : Nat × Nat := (t.width + 2 * a.config.padding, t.height + 2 * a.config.padding)

namespace Frame

/-- Grows step by step until an id has a place. -/
def growUntilPlaced (id width height : Nat) : List Capacity → Frame → Bool × Frame
  | [], f => (false, f)
  | capacity :: rest, f =>
    match f.grow capacity with
    | (false, f) => (false, f)
    | (true, f) =>
      match f.atlas.place? id width height with
      | some atlas => (true, { f with atlas })
      | none => growUntilPlaced id width height rest f

/-- Gives an id a place, growing the image if need be. -/
def place (f : Frame) (id width height : Nat) : Bool × Frame :=
  match f.atlas.place? id width height with
  | some atlas => (true, { f with atlas })
  | none =>
    growUntilPlaced id width height (growthSteps f.atlas.image.capacity f.atlas.config.maxLayers width height) f

/-- Gives a waiting id a place, or lets it wait on; also whether one had to. -/
def placeWaiting : Bool × Frame → Nat → Bool × Frame
  | (short, f), id =>
    match (f.atlas.slot id).texture, f.atlas.placement? id with
    | some texture, none =>
      let (width, height) := f.atlas.paddedSize texture
      match f.place id width height with
      | (true, f) => (short, f)
      | (false, f) => (true, f.modifyAtlas fun a => { a with pending := a.pending.push id })
    | _, _ => (short, f)

/-- Gives waiting ids places. -/
def placeAllWaiting (f : Frame) (ids : List Nat) : Frame :=
  match ids.foldl placeWaiting (false, f) with
  | (true, f) => f.announce .outOfSpace
  | (false, f) => f

/-- The upload of staged texels to a place. -/
def uploadCommand (image : OwnedImage) (start : Nat) (place : Placement) : Command :=
  .copyToImage start image.handle place.layer place.x place.y place.width place.height

/-- Stages a texture for its place, or announces that there is no room. -/
def stageTexture (f : Frame) (texture : Texture) (place : Placement) : Option Nat × Frame :=
  match f.stage (place.width * place.height * 4) (texture.padded f.atlas.config.padding) with
  | none => (none, f.announce .stagingOverflow)
  | some (start, f) => (some start, f)

/-- Uploads a waiting id to its place, or lets it wait on. -/
def uploadWaiting (f : Frame) (id : Nat) : Frame :=
  match (f.atlas.slot id).texture, f.atlas.placement? id with
  | some texture, some place =>
    match f.stageTexture texture place with
    | (none, f) => f.modifyAtlas fun a => { a with pending := a.pending.push id }
    | (some start, f) =>
      let f := f.turnLive .transferTarget
      (f.record [uploadCommand f.atlas.image start place]).modifyAtlas fun a =>
        (a.modifySlot id Slot.uploaded).showPlace id
  | _, _ => f

/-- Uploads an id to its planned place in the image of the repack, or lets it wait on; also whether any was. -/
def uploadPlanned : Bool × Frame → Nat → Bool × Frame
  | (written, f), id =>
    match f.atlas.repack, (f.atlas.slot id).texture with
    | some repack, some texture =>
      match repack.places.get? id with
      | none => (written, f)
      | some place =>
        match f.stageTexture texture place with
        | (none, f) =>
          (written, f.modifyAtlas fun a =>
            { a with repack := a.repack.map fun r => { r with queue := r.queue.push id } })
        | (some start, f) =>
          (true, (f.turnRepack .transferTarget).record [uploadCommand repack.image start place])
    | _, _ => (written, f)

/-- Uploads the table if it is stale. -/
def uploadTable (f : Frame) : Frame :=
  if f.atlas.tableStale then
    let count := f.atlas.config.tableBytes
    match f.stage count (Entry.tableBytes f.atlas.entries) with
    | none => f.announce .stagingOverflow
    | some (start, f) =>
      let buffer := f.atlas.tableBuffer
      (f.record [.copyToBuffer start buffer count, .bufferBarrier buffer]).modifyAtlas fun a =>
        { a with tableStale := false }
  else f

end Frame

end TextureLoom.Atlas
