import TextureLoom.Atlas.Basic

set_option autoImplicit false

namespace TextureLoom.Atlas

/-- Why data is not taken for an id. -/
inductive DataError where
  | outOfRange (id limit : Nat)
  | unregistered (id : Nat)
  | emptySize (width height : Nat)
  | aboveLimit (id width height limit : Nat)
  | aboveSide (id width height side padding : Nat)
  | shortPitch (pitch rowBytes : Nat)
  | shortBuffer (size needed : Nat)
deriving DecidableEq, Repr

def DataError.message : DataError → String
  | .outOfRange id limit => s!"texture id {id} out of range (max_texture_id {limit})"
  | .unregistered id => s!"texture id {id} is not registered"
  | .emptySize width height => s!"texture size must be non-zero (got {width}x{height})"
  | .aboveLimit id width height limit => s!"texture {id} is {width}x{height}, larger than max_texture_size {limit}"
  | .aboveSide id width height side padding =>
    s!"texture {id} is {width}x{height}, too large for a {side} atlas with {padding} px padding"
  | .shortPitch pitch rowBytes => s!"row pitch {pitch} is smaller than width * 4 ({rowBytes})"
  | .shortBuffer size needed => s!"pixel buffer holds {size} bytes, {needed} needed"

/-- Takes an id out of the queue of a running repack. -/
def leaveRepack (a : Atlas) (id : Nat) : Atlas :=
  { a with repack := a.repack.map fun r => { r with queue := r.queue.remove id } }

/-- Takes an id out of the plan and the queue of a running repack. -/
def unplan (a : Atlas) (id : Nat) : Atlas :=
  { a with repack := a.repack.map fun r => { r with places := r.places.erase id, queue := r.queue.remove id } }

/-- Queues an id for a running repack that has planned it. -/
def joinRepack (a : Atlas) (id : Nat) : Atlas :=
  { a with repack := a.repack.map fun r =>
      if (r.places.get? id).isSome then { r with queue := r.queue.push id } else r }

/-- Gives the place of an id back to its bin. -/
def releasePlace (a : Atlas) (id : Nat) : Atlas :=
  let bins := match a.placement? id with
    | some place => a.bins.modify place.layer (·.release place.rect)
    | none => a.bins
  { a with bins, slots := a.slots.modify id Slot.unplaced }

/-- Takes an id out of all queues. -/
def dequeue (a : Atlas) (id : Nat) : Atlas := { a with pending := a.pending.remove id }.leaveRepack id

/-- The next id to hand out: the one given back last, or else the least never handed out. -/
def nextFree (a : Atlas) : Option (Nat × Atlas) :=
  match a.freeIds with
  | id :: rest => some (id, { a with freeIds := rest })
  | [] =>
    if a.nextId < a.config.maxTextureId then some (a.nextId, { a with nextId := a.nextId + 1 }) else none

/-- Hands out an id, or `overflowId` when all are taken. -/
def register (a : Atlas) : Nat × Atlas :=
  match a.nextFree with
  | none => (overflowId, a)
  | some (id, a) => (id, (a.modifySlot id fun _ => .fresh).setEntry id .blank)

/-- Whether calls can name an id. -/
def check (a : Atlas) (id : Nat) : Except DataError Unit :=
  if a.config.maxTextureId ≤ id then .error (.outOfRange id a.config.maxTextureId)
  else if (a.slot id).isRegistered then .ok ()
  else .error (.unregistered id)

/-- An id whose last data is too large. -/
def reject (a : Atlas) (id : Nat) : Atlas :=
  (((a.releasePlace id).modifySlot id Slot.rejected).dequeue id).setEntry id .tooLarge

/-- Gives back the place of an id whose data has another size than the texture. -/
def releaseResized (a : Atlas) (id width height : Nat) : Atlas :=
  match (a.slot id).texture with
  | some old =>
    if old.width = width ∧ old.height = height then a
    else ((a.releasePlace id).setEntry id .pending).unplan id
  | none => a

/-- Sets data that is in order. -/
def load (a : Atlas) (id : Nat) (t : Texture) : Atlas :=
  let a := (a.releaseResized id t.width t.height).modifySlot id (·.loaded t)
  let a := if (a.placement? id).isNone then a.setEntry id .pending else a
  { a with pending := a.pending.push id }.joinRepack id

/-- Why a texture of this size has no place in any atlas of the configuration. -/
def sizeError? (c : Config) (id width height : Nat) : Option DataError :=
  if c.maxTextureSize < width ∨ c.maxTextureSize < height then some (.aboveLimit id width height c.maxTextureSize)
  else if largestSide < width + 2 * c.padding ∨ largestSide < height + 2 * c.padding then
    some (.aboveSide id width height largestSide c.padding)
  else none

/-- The texture in a buffer whose rows start `pitch` bytes apart, or without gaps for a pitch of zero. -/
def textureOf (width height pitch : Nat) (bytes : ByteArray) : Except DataError Texture :=
  let rowBytes := width * 4
  let pitch := if pitch = 0 then rowBytes else pitch
  let needed := pitch * (height - 1) + rowBytes
  if pitch < rowBytes then .error (.shortPitch pitch rowBytes)
  else if bytes.size < needed then .error (.shortBuffer bytes.size needed)
  else .ok (.ofRows width height pitch bytes)

/-- Sets the data of an id. Its place stays if its size does. -/
def set (a : Atlas) (id width height pitch : Nat) (bytes : ByteArray) : Atlas × Except DataError Unit :=
  if a.ignores id then (a, .ok ())
  else
    match a.check id with
    | .error e => (a, .error e)
    | .ok _ =>
      if width = 0 ∨ height = 0 then (a, .error (.emptySize width height))
      else
        match sizeError? a.config id width height with
        | some e => (a.reject id, .error e)
        | none =>
          match textureOf width height pitch bytes with
          | .error e => (a, .error e)
          | .ok texture => (a.load id texture, .ok ())

/-- Takes the data of a registered id away. -/
def forget (a : Atlas) (id : Nat) (f : Slot → Slot) : Atlas :=
  (((a.releasePlace id).modifySlot id f).dequeue id).setEntry id .blank

/-- Takes the data of an id away; the id stays registered. -/
def clear (a : Atlas) (id : Nat) : Atlas × Except DataError Unit :=
  if a.ignores id then (a, .ok ())
  else
    match a.check id with
    | .error e => (a, .error e)
    | .ok _ => (a.forget id Slot.cleared, .ok ())

/-- Takes an id back. -/
def remove (a : Atlas) (id : Nat) : Atlas × Except DataError Unit :=
  if a.ignores id then (a, .ok ())
  else
    match a.check id with
    | .error e => (a, .error e)
    | .ok _ =>
      let a := a.forget id Slot.discarded
      ({ a with freeIds := id :: a.freeIds }, .ok ())

/-- Asks for a repack at the next flush. -/
def requestRepack (a : Atlas) (mode : RepackMode) : Atlas := { a with repackRequest := some mode }

/-- Asks for more layers at the next flush. -/
def requestLayers (a : Atlas) (count : Nat) : Atlas :=
  { a with layerRequest := max a.layerRequest (min count a.config.maxLayers) }

end TextureLoom.Atlas
