import TextureLoom.Table
import TextureLoom.Image.Basic
import TextureLoom.Atlas.Staging

set_option autoImplicit false

namespace TextureLoom.Atlas

/-- What an image is prepared for. -/
inductive Layout where
  | undefined
  | transferSource
  | transferTarget
  | shaderRead
deriving DecidableEq, Repr

def Layout.name : Layout → String
  | .undefined => "Undefined"
  | .transferSource => "TransferSrc"
  | .transferTarget => "TransferDst"
  | .shaderRead => "ShaderReadOnly"

/-- One step of a transfer. Images and buffers go by handle. -/
inductive Command where
  | imageBarrier (image : Nat) (old new : Layout) (layers : Nat)
  /-- The top left square of the first layers. -/
  | copyImage (source target extent layers : Nat)
  /-- Staged texels into a rectangle of one layer. -/
  | copyToImage (offset target layer x y width height : Nat)
  /-- Staged bytes to the start of a buffer. -/
  | copyToBuffer (offset target count : Nat)
  | bufferBarrier (buffer : Nat)
deriving DecidableEq, Repr

/-- Why a device refuses a command. -/
inductive Violation where
  | unknownImage (image : Nat)
  | wrongLayout (image : Nat) (found wanted : Layout)
  | wrongBarrier (image : Nat) (wanted found : Layout)
  | imageCopyOutside
  | misaligned (offset alignment : Nat)
  | stagingOutside
  | uploadOutside
  | unknownBuffer (buffer : Nat)
  | bufferCopyOutside
deriving DecidableEq, Repr

def Violation.message : Violation → String
  | .unknownImage image => s!"unknown image {image}"
  | .wrongLayout image found wanted => s!"image {image} is in {found.name}, expected {wanted.name}"
  | .wrongBarrier image wanted found =>
    s!"barrier on image {image} expects {wanted.name} but image is in {found.name}"
  | .imageCopyOutside => "image copy out of bounds"
  | .misaligned offset alignment => s!"staging offset {offset} is not {alignment}-byte aligned"
  | .stagingOutside => "staging range out of bounds"
  | .uploadOutside => "buffer to image copy out of bounds"
  | .unknownBuffer buffer => s!"unknown buffer {buffer}"
  | .bufferCopyOutside => "buffer copy out of bounds"

inductive DeviceError where
  | outOfMemory (bytes : Nat)
  | invalid (violation : Violation)
deriving DecidableEq, Repr

def DeviceError.message : DeviceError → String
  | .outOfMemory bytes => s!"gpu out of memory allocating {bytes} bytes"
  | .invalid violation => s!"gpu validation failed: {violation.message}"

/-- A square image array; a layer that nothing was written to holds no bytes and reads as transparent black. -/
structure DeviceImage where
  side : Nat
  layers : Nat
  layout : Layout
  texels : Array (Option ByteArray)

namespace DeviceImage

/-- A new image with no layer written to. -/
def create (side layers : Nat) : DeviceImage := ⟨side, layers, .undefined, Array.replicate layers none⟩

/-- Bytes that the image takes, counting all its layers. -/
def byteCount (img : DeviceImage) : Nat := img.side * img.side * img.layers * 4

/-- The image with the bytes of one layer changed, zeros if it held none. -/
def modifyLayer (layer : Nat) (f : ByteArray → ByteArray) (img : DeviceImage) : DeviceImage :=
  let fresh := img.side * img.side * 4
  { img with texels := img.texels.modify layer fun bytes? =>
      match bytes? with
      | some bytes => some (f bytes)
      | none => some (f (Bytes.zeros fresh)) }

/-- The bytes of a layer that was written to. -/
def layer? (img : DeviceImage) (layer : Nat) : Option ByteArray := (img.texels[layer]?).join

/-- The four bytes of a texel of layer bytes; offsets are 32-bit words. -/
def texelOf (bytes : ByteArray) (side x y : Nat) : List UInt8 :=
  let start := (y * side + x) * 4 % 0x100000000
  [Bytes.byteAt bytes start, Bytes.byteAt bytes (start + 1), Bytes.byteAt bytes (start + 2),
    Bytes.byteAt bytes (start + 3)]

/-- The red, green, blue and alpha bytes of a texel of the image. -/
def texel? (img : DeviceImage) (layer x y : Nat) : Option (List UInt8) :=
  if img.layers ≤ layer ∨ img.side ≤ x ∨ img.side ≤ y then none
  else
    match img.layer? layer with
    | none => some [0, 0, 0, 0]
    | some bytes => some (texelOf bytes img.side x y)

/-- One layer as a picture. -/
def layerImage? (img : DeviceImage) (layer : Nat) : Option Image :=
  if img.layers ≤ layer then none
  else
    match img.layer? layer with
    | none => some (.solid img.side img.side 0)
    | some bytes =>
      some (.tabulate img.side img.side fun x y =>
        let start := (y * img.side + x) * 4
        .ofRgba (Bytes.byteAt bytes start) (Bytes.byteAt bytes (start + 1)) (Bytes.byteAt bytes (start + 2))
          (Bytes.byteAt bytes (start + 3)))

/-- Whether a rectangle lies in the image; its edges are 32-bit words. -/
def hasRect (img : DeviceImage) (layer x y width height : Nat) : Bool :=
  layer < img.layers && (x + width) % 0x100000000 ≤ img.side && (y + height) % 0x100000000 ≤ img.side

end DeviceImage

/-- `count` rows of `length` bytes copied; rows of `source` are `sourceStride` bytes apart from `start` on, and those of
`target` `targetStride` from `offset` on. -/
def copyRows (source : ByteArray) (start sourceStride : Nat) (offset targetStride length count : Nat)
    (target : ByteArray) : ByteArray :=
  count.fold (fun row _ acc => Bytes.blit source (start + row * sourceStride) acc (offset + row * targetStride) length)
    target

/-- A device that runs commands on images and buffers in memory. -/
structure Device where
  /-- What staging offsets of image copies are multiples of. -/
  alignment : Nat
  /-- Bytes of all images, at most. -/
  memoryLimit : Option Nat
  memoryUsed : Nat
  /-- The last handle given out. -/
  handles : Nat
  images : Table Nat DeviceImage
  buffers : Table Nat ByteArray

namespace Device

def create (alignment : Nat) : Device := ⟨max alignment 1, none, 0, 0, [], []⟩

/-- A new image and its handle, or the bytes that it lacks. -/
def createImage (d : Device) (side layers : Nat) : Except DeviceError (Nat × Device) :=
  let img := DeviceImage.create side layers
  let fits := match d.memoryLimit with
    | some limit => decide (d.memoryUsed + img.byteCount ≤ limit)
    | none => true
  if fits then
    let handle := d.handles + 1
    .ok (handle, { d with
      memoryUsed := d.memoryUsed + img.byteCount, handles := handle, images := d.images.insert handle img })
  else .error (.outOfMemory img.byteCount)

def destroyImage (d : Device) (handle : Nat) : Device :=
  match d.images.get? handle with
  | none => d
  | some img => { d with memoryUsed := d.memoryUsed - img.byteCount, images := d.images.erase handle }

/-- A new buffer of zeros and its handle. -/
def createBuffer (d : Device) (count : Nat) : Nat × Device :=
  let handle := d.handles + 1
  (handle, { d with handles := handle, buffers := d.buffers.insert handle (Bytes.zeros count) })

def destroyBuffer (d : Device) (handle : Nat) : Device := { d with buffers := d.buffers.erase handle }

def imageCount (d : Device) : Nat := d.images.length

def layout? (d : Device) (handle : Nat) : Option Layout := (d.images.get? handle).map (·.layout)

def extent? (d : Device) (handle : Nat) : Option (Nat × Nat) :=
  (d.images.get? handle).map fun img => (img.side, img.layers)

def texel? (d : Device) (handle layer x y : Nat) : Option (List UInt8) :=
  (d.images.get? handle).bind (·.texel? layer x y)

def layerImage? (d : Device) (handle layer : Nat) : Option Image :=
  (d.images.get? handle).bind (·.layerImage? layer)

def modifyImage (d : Device) (handle : Nat) (f : DeviceImage → DeviceImage) : Device :=
  { d with images := Table.modify handle f d.images }

/-- Why the image of a handle is not one prepared as wanted. -/
def layoutViolation? (d : Device) (handle : Nat) (wanted : Layout) : Option Violation :=
  match d.layout? handle with
  | none => some (.unknownImage handle)
  | some found => if found = wanted then none else some (.wrongLayout handle found wanted)

/-- Why an image copy is not in range. -/
def copyViolation? (d : Device) (source target extent layers : Nat) : Option Violation :=
  match d.extent? source, d.extent? target with
  | none, _ => some (.unknownImage source)
  | _, none => some (.unknownImage target)
  | some (sourceSide, sourceLayers), some (targetSide, targetLayers) =>
    if min sourceSide targetSide < extent ∨ min sourceLayers targetLayers < layers then some .imageCopyOutside
    else none

/-- Why an upload into a rectangle is not aligned or not in range; its byte count is a 64-bit word. -/
def uploadViolation? (d : Device) (staging : Staging) (offset target layer x y width height : Nat) :
    Option Violation :=
  if offset % d.alignment ≠ 0 then some (.misaligned offset d.alignment)
  else if !staging.hasRange offset (width * height * 4 % 0x10000000000000000) then some .stagingOutside
  else
    match d.images.get? target with
    | none => some (.unknownImage target)
    | some img => if img.hasRect layer x y width height then none else some .uploadOutside

/-- Why an upload to a buffer is not in range. -/
def bufferViolation? (d : Device) (staging : Staging) (offset target count : Nat) : Option Violation :=
  if !staging.hasRange offset count then some .stagingOutside
  else
    match d.buffers.get? target with
    | none => some (.unknownBuffer target)
    | some bytes => if bytes.size < count then some .bufferCopyOutside else none

/-- Why a command is refused, if it is. -/
def violation? (d : Device) (staging : Staging) : Command → Option Violation
  | .imageBarrier image old _ _ =>
    match d.layout? image with
    | none => some (.unknownImage image)
    | some found => if old ≠ .undefined ∧ old ≠ found then some (.wrongBarrier image old found) else none
  | .copyImage source target extent layers =>
    (d.layoutViolation? source .transferSource).or
      ((d.layoutViolation? target .transferTarget).or (d.copyViolation? source target extent layers))
  | .copyToImage offset target layer x y width height =>
    (d.layoutViolation? target .transferTarget).or (d.uploadViolation? staging offset target layer x y width height)
  | .copyToBuffer offset target count => d.bufferViolation? staging offset target count
  | .bufferBarrier buffer => if (d.buffers.get? buffer).isSome then none else some (.unknownBuffer buffer)

/-- The first layers of an image copied onto another one, as far as they were written to. -/
def copyLayers (source : DeviceImage) (extent layers : Nat) (target : DeviceImage) : DeviceImage :=
  layers.fold (fun layer _ target =>
    match source.layer? layer with
    | none => target
    | some bytes =>
      target.modifyLayer layer (copyRows bytes 0 (source.side * 4) 0 (target.side * 4) (extent * 4) extent)) target

/-- Staged texels copied into a rectangle of one layer. -/
def writeRect (staging : Staging) (offset layer x y width height : Nat) (target : DeviceImage) : DeviceImage :=
  let side := target.side
  target.modifyLayer layer
    (copyRows staging.bytes offset (width * 4) ((y * side + x) * 4) (side * 4) (width * 4) height)

/-- The effect of a command that is not refused. -/
def apply (d : Device) (staging : Staging) : Command → Device
  | .imageBarrier image _ new _ => d.modifyImage image fun img => { img with layout := new }
  | .copyImage source target extent layers =>
    match d.images.get? source with
    | none => d
    | some img => d.modifyImage target (copyLayers img extent layers)
  | .copyToImage offset target layer x y width height =>
    d.modifyImage target (writeRect staging offset layer x y width height)
  | .copyToBuffer offset target count =>
    let write := fun bytes => Bytes.blit staging.bytes offset bytes 0 count
    { d with buffers := Table.modify target write d.buffers }
  | .bufferBarrier _ => d

/-- Runs commands in order up to the first that is refused; those before it keep their effect. -/
def submit (d : Device) (staging : Staging) : List Command → Device × Except DeviceError Unit
  | [] => (d, .ok ())
  | command :: rest =>
    match d.violation? staging command with
    | some violation => (d, .error (.invalid violation))
    | none => submit (d.apply staging command) staging rest

end Device

end TextureLoom.Atlas
