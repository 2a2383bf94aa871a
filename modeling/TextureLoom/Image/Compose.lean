import TextureLoom.Image.Basic

set_option autoImplicit false

namespace TextureLoom.Image

/-- `top`, of the same size, laid on the image. -/
def overlay (img top : Image) : Image := img.zip Pixel.blendOver top

/-- `columns` pixels of row `row` of `top` laid on the run of pixels that starts at `start`. -/
def blendRow (top : Image) (row columns start : Nat) (pixels : Array Pixel) : Array Pixel :=
  columns.fold (fun column _ acc =>
    acc.modify (start + column) fun p => Pixel.blendOver p (top.get column row)) pixels

/-- `top` laid on the image with its top left corner at `(x, y)`, cut off at the edges. -/
def overlayAt : Image → Image → Nat → Nat → Image
  | ⟨width, height, pixels⟩, top, x, y =>
    let columns := min top.width (width - x)
    let rows := min top.height (height - y)
    ⟨width, height, rows.fold (fun row _ acc => top.blendRow row columns ((y + row) * width + x) acc) pixels⟩

/-- The first row of the bottom `percent` of `height` rows, computed in 32-bit words. -/
def lowPartStart (height percent : Nat) : Nat := height - height * min percent 100 % 0x100000000 / 100

/-- The bottom `percent` of `top`, of the same size, laid on the image. -/
def lowPart (img top : Image) (percent : Nat) : Image :=
  let start := lowPartStart img.height percent * img.width
  let stop := img.height * img.width
  { img with pixels := img.pixels.mapIdx fun i p =>
      if start ≤ i ∧ i < stop then Pixel.blendOver p (top.pixels.getD i 0) else p }

end TextureLoom.Image
