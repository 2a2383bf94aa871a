import TextureLoom.Atlas.Device
import TextureLoom.Atlas.Packing
import TextureLoom.Atlas.Queue
import TextureLoom.Atlas.Slot

set_option autoImplicit false

namespace TextureLoom.Atlas

/-- An image of the device as its owner knows it: the layout is the one that the recorded commands leave it in. -/
structure OwnedImage where
  handle : Nat
  capacity : Capacity
  layout : Layout
deriving DecidableEq, Repr

/-- The image in another layout, with the barrier that this takes. -/
def OwnedImage.turn (img : OwnedImage) (layout : Layout) : OwnedImage × List Command :=
  if img.layout = layout then (img, [])
  else ({ img with layout }, [.imageBarrier img.handle img.layout layout img.capacity.layers])

/-- How far a repack is. -/
inductive RepackProgress where
  /-- Uploads into the new image are queued. -/
  | draining
  /-- All is recorded and the device has to finish. -/
  | waiting
  /-- The next flush shows the new image. -/
  | ready
deriving DecidableEq, Repr

/-- A second image being filled. -/
structure Repack where
  image : OwnedImage
  places : Table Nat Placement
  queue : Queue
  progress : RepackProgress

/-- Where an atlas stands with repacking. -/
inductive Phase where
  | idle
  | requested
  | running (progress : RepackProgress)
deriving DecidableEq, Repr

def Phase.name : Phase → String
  | .idle => "Idle"
  | .requested => "Requested"
  | .running .draining => "Draining"
  | .running .waiting => "WaitingGpu"
  | .running .ready => "SwapReady"

/-- What an atlas announces while it is flushed. -/
inductive Event where
  /-- An upload found no room in the staging buffer and waits. -/
  | stagingOverflow
  /-- A texture found no place and waits. -/
  | outOfSpace
  /-- The device refused an image. -/
  | deviceOutOfMemory
  | repackStarted
  | repackFinished
deriving DecidableEq, Repr

def Event.name : Event → String
  | .stagingOverflow => "StagingOverflow"
  | .outOfSpace => "AtlasOutOfSpace"
  | .deviceOutOfMemory => "GpuOutOfMemory"
  | .repackStarted => "RepackStarted"
  | .repackFinished => "RepackFinished"

end TextureLoom.Atlas

namespace TextureLoom

open Atlas

/-- Textures by id, placed in the layers of one square image, with a table of where each lies. -/
structure Atlas where
  config : Config
  /-- What its ranges of the staging buffer are aligned to. -/
  alignment : Nat
  image : OwnedImage
  /-- The device buffer of the table. -/
  tableBuffer : Nat
  entries : Array Entry
  /-- Whether the table changed since it was last uploaded. -/
  tableStale : Bool
  slots : Array Slot
  /-- Ids given back, the last one first. -/
  freeIds : List Nat
  /-- The least id never handed out. -/
  nextId : Nat
  /-- Ids to be placed or uploaded. -/
  pending : Queue
  /-- One bin for each layer. -/
  bins : List Bin
  /-- Images to be destroyed once the device has finished. -/
  retired : List Nat
  /-- Layers asked for, or zero. -/
  layerRequest : Nat
  repackRequest : Option RepackMode
  repack : Option Repack

end TextureLoom

namespace TextureLoom.Atlas

/-- The id that stands for no texture when all ids are taken. -/
def overflowId : Nat := 0

/-- An id that every call passes over. -/
def noId : Nat := 0xffffffff

/-- The id of a whole layer. -/
def layerId (layer : Nat) : Nat := layer + 1

def side (a : Atlas) : Nat := a.image.capacity.side

def layers (a : Atlas) : Nat := a.image.capacity.layers

def slot (a : Atlas) (id : Nat) : Slot := a.slots.getD id {}

/-- Whether calls pass over an id. -/
def ignores (a : Atlas) (id : Nat) : Bool := id == noId || id < a.config.reservedCount

/-- The status of an id that was handed out at least once. -/
def status? (a : Atlas) (id : Nat) : Option Status :=
  if a.ignores id ∨ (a.slot id).status = .unused then none else some (a.slot id).status

def generation (a : Atlas) (id : Nat) : Nat := (a.slot id).generation

def placement? (a : Atlas) (id : Nat) : Option Placement := (a.slot id).place

def entry? (a : Atlas) (id : Nat) : Option Entry := a.entries[id]?

def isPending (a : Atlas) (id : Nat) : Bool := a.pending.contains id

def phase (a : Atlas) : Phase :=
  match a.repack with
  | some repack => .running repack.progress
  | none => if a.repackRequest.isSome then .requested else .idle

/-- A line for debugging. -/
def summary (a : Atlas) : String :=
  s!"TextureAtlas \x7b side: {a.side}, layers: {a.layers}, next_id: {a.nextId}, repack: {a.phase.name}, .. \x7d"

/-- What a flush leaves for drawing. -/
structure Descriptor where
  image : OwnedImage
  tableBuffer : Nat
deriving DecidableEq, Repr

def descriptor (a : Atlas) : Descriptor := ⟨a.image, a.tableBuffer⟩

def modifySlot (a : Atlas) (id : Nat) (f : Slot → Slot) : Atlas := { a with slots := a.slots.modify id f }

def setEntry (a : Atlas) (id : Nat) (e : Entry) : Atlas :=
  { a with entries := a.entries.setIfInBounds id e, tableStale := true }

/-- The row of a placed id points at its place. -/
def showPlace (a : Atlas) (id : Nat) : Atlas :=
  match a.placement? id with
  | some place => a.setEntry id (.ofPlacement place a.side)
  | none => a.setEntry id .pending

/-- The bins with the place of a slot taken out. -/
def occupySlot (bins : List Bin) (s : Slot) : List Bin :=
  match s.place with
  | some place => bins.modify place.layer (·.occupy place.rect)
  | none => bins

/-- The bins that the places of the slots leave. -/
def rebuildBins (a : Atlas) : Atlas := { a with bins := a.slots.foldl occupySlot a.image.capacity.bins }

/-- Why an atlas is not created. -/
inductive CreateError where
  | config (e : ConfigError)
  | image (e : DeviceError)
deriving DecidableEq, Repr

/-- The first rows stand for whole layers, the others are blank. -/
def initialEntries (c : Config) : Array Entry :=
  c.maxLayers.fold (fun layer _ entries => entries.setIfInBounds (layerId layer) (.wholeLayer layer))
    (Array.replicate c.maxTextureId .blank)

/-- The staging buffer of an atlas: the one given, if it holds the table, or one of its own. -/
def stagingFor (c : Config) (given : Option Staging) : Except ConfigError Staging := do
  let staging ← match given with
    | some staging => pure staging
    | none => Staging.create c.stagingBytes
  if staging.size < c.tableBytes then throw (.smallStaging staging.size c.tableBytes)
  pure staging

/-- An atlas of a device image with one layer. -/
def ofImage (c : Config) (alignment handle tableBuffer : Nat) : Atlas :=
  let capacity : Capacity := ⟨c.initialSide, 1⟩
  { config := c
    alignment := alignment
    image := ⟨handle, capacity, .undefined⟩
    tableBuffer := tableBuffer
    entries := initialEntries c
    tableStale := true
    slots := Array.replicate c.maxTextureId {}
    freeIds := []
    nextId := c.reservedCount
    pending := Queue.create c.maxTextureId
    bins := capacity.bins
    retired := []
    layerRequest := 0
    repackRequest := none
    repack := none }

/-- An atlas with one empty layer, its table and image created on the device. -/
def create (c : Config) (device : Device) (given : Option Staging) : Except CreateError (Atlas × Device × Staging) := do
  c.validate.mapError .config
  let staging ← (stagingFor c given).mapError .config
  let (tableBuffer, device) := device.createBuffer c.tableBytes
  let (handle, device) ← (device.createImage c.initialSide 1).mapError .image
  pure (ofImage c (max device.alignment 4) handle tableBuffer, device, staging)

/-- The device without what an atlas holds on it. -/
def destroy (a : Atlas) (device : Device) : Device :=
  let images := a.retired ++ (a.repack.map (·.image.handle)).toList ++ [a.image.handle]
  (images.foldl Device.destroyImage device).destroyBuffer a.tableBuffer

end TextureLoom.Atlas
