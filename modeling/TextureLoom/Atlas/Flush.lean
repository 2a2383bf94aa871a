import TextureLoom.Atlas.Frame

set_option autoImplicit false

namespace TextureLoom.Atlas

/-- The textures of an atlas with their padding, the largest area first. -/
def repackItems (a : Atlas) : List Item :=
  let items := (List.range a.slots.size).filterMap fun id =>
    (a.slot id).texture.map fun t =>
      let (width, height) := a.paddedSize t
      (⟨id, width, height⟩ : Item)
  items.mergeSort fun left right => decide (right.area ≤ left.area)

/-- An id as it stands once the image of a repack is shown. -/
def settle (places : Table Nat Placement) (a : Atlas) (id : Nat) : Atlas :=
  let slot := a.slot id
  if slot.isRegistered then
    match slot.texture, places.get? id with
    | some _, some place => (a.modifySlot id fun s => { s with place := some place }.uploaded).showPlace id
    | some _, none =>
      let a := a.modifySlot id fun s => { s.unplaced with status := .pendingUpload }
      { a with pending := a.pending.push id }.setEntry id .pending
    | none, _ => (a.modifySlot id Slot.unplaced).setEntry id slot.idleEntry
  else a

/-- The atlas with the image of a repack as its live one. -/
def adopt (a : Atlas) (r : Repack) : Atlas :=
  let a := { a with image := r.image, retired := a.retired ++ [a.image.handle], repack := none }
  let a := (List.range a.slots.size).foldl (settle r.places) a
  { a with tableStale := true }.rebuildBins

namespace Frame

/-- Shows the image of a repack that is ready. -/
def adoptReady (f : Frame) : Frame :=
  match f.atlas.repack with
  | none => f
  | some r => if r.progress = .ready then (f.modifyAtlas (·.adopt r)).announce .repackFinished else f

/-- Creates the image of a planned repack; if the device refuses it, the request stays. -/
def startPlanned (f : Frame) (items : List Item) (plan : Plan) : Frame :=
  match f.device.createImage plan.capacity.side plan.capacity.layers with
  | .error _ => f.announce .deviceOutOfMemory
  | .ok (handle, device) =>
    let queue := items.foldl (fun q item => q.push item.id) (Queue.create f.atlas.config.maxTextureId)
    let repack : Repack := ⟨⟨handle, plan.capacity, .undefined⟩, plan.places, queue, .draining⟩
    ({ f with device }.modifyAtlas fun a => { a with repackRequest := none, repack := some repack }).announce
      .repackStarted

/-- Starts a repack if there is anything to place and a capacity that holds it. -/
def startRepack (f : Frame) (mode : RepackMode) : Frame :=
  let dropRequest := fun (a : Atlas) => { a with repackRequest := none }
  match f.atlas.repackItems with
  | [] => f.modifyAtlas dropRequest
  | item :: rest =>
    let items := item :: rest
    match (mode.capacities f.atlas.image.capacity f.atlas.config.maxLayers).findSome? (planFor? items) with
    | none => (f.modifyAtlas dropRequest).announce .outOfSpace
    | some plan => f.startPlanned items plan

/-- Starts a repack that was asked for while none runs. -/
def startRequested (f : Frame) : Frame :=
  match f.atlas.repack, f.atlas.repackRequest with
  | none, some mode => f.startRepack mode
  | _, _ => f

/-- Takes the ids that wait, and those that wait for the running repack. -/
def takeWaiting (f : Frame) : List Nat × List Nat × Frame :=
  let (ids, pending) := f.atlas.pending.drain
  match f.atlas.repack with
  | none => (ids, [], f.modifyAtlas fun a => { a with pending })
  | some r =>
    let (planned, queue) := r.queue.drain
    (ids, planned, f.modifyAtlas fun a => { a with pending, repack := some { r with queue } })

/-- Readies the written image of a running repack, which waits for the device once nothing is queued for it. -/
def finishRepack (f : Frame) (written : Bool) : Frame :=
  let f := if written then f.turnRepack .shaderRead else f
  f.modifyAtlas fun a => { a with repack := a.repack.map fun r =>
    if r.queue.isEmpty then { r with progress := .waiting } else r }

/-- Uploads into the image of the running repack, then the table; all images written to are left ready for drawing. -/
def finish (f : Frame) (planned : List Nat) : Frame :=
  let (written, f) := planned.foldl uploadPlanned (false, f)
  ((f.uploadTable).turnLive .shaderRead).finishRepack written

/-- Records all that is waiting: a finished repack is shown, a requested one is started, the image grows, textures are
placed and uploaded, and the table follows. -/
def flush (f : Frame) : Frame :=
  let (ids, planned, f) := (f.adoptReady.startRequested.growRequested).takeWaiting
  (ids.foldl uploadWaiting (f.placeAllWaiting ids)).finish planned

end Frame

/-- Records a flush of the atlas. -/
def flush (a : Atlas) (device : Device) (staging : Staging) : Frame := Frame.flush ⟨a, device, staging, #[], []⟩

/-- The device has finished all that was recorded: retired images go and the staging buffer is free again. -/
def deviceFinished (a : Atlas) (device : Device) (staging : Staging) : Atlas × Device × Staging :=
  let repack := a.repack.map fun r =>
    if r.progress = .waiting ∧ r.queue.isEmpty then { r with progress := .ready } else r
  ({ a with retired := [], repack }, a.retired.foldl Device.destroyImage device, staging.reset)

end TextureLoom.Atlas
