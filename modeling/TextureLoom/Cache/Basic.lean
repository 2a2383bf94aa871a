import TextureLoom.Recipe
import TextureLoom.Text.Real
import TextureLoom.Atlas.Data
import TextureLoom.Cache.Animation

set_option autoImplicit false

namespace TextureLoom

/-- Pipelines by recipe, each with an id of an atlas whose pixels are baked again when something it shows changes. -/
structure Cache where
  atlas : Atlas
  /-- The atlas ids of the cached recipes. -/
  ids : Table Recipe Nat
  /-- The textures that programs read. -/
  raw : Table Nat TextureView
  /-- The last bake of each cached recipe, by atlas id. -/
  baked : Table Nat TextureView
  /-- The cached recipes that read a texture. -/
  readers : Table Nat (List Recipe)
  animated : Table Recipe Animation
  changedTextures : List Nat
  changedRecipes : List Recipe
  /-- The time of the bakes. -/
  seconds : Float

/-- The view of an image whose sides are 16-bit numbers above zero. -/
def TextureView.ofImage? (img : Image) : Option TextureView :=
  let fits := fun side => decide (0 < side ∧ side < 0x10000)
  if fits img.width && fits img.height && img.pixels.size == img.width * img.height then
    some ⟨img.width, img.height, img.pixels⟩
  else none

/-- The view itself, if it shows an image. -/
def TextureView.usable? (view : TextureView) : Option TextureView := if view.image?.isSome then some view else none

namespace Cache

def ofAtlas (atlas : Atlas) : Cache := ⟨atlas, [], [], [], [], [], [], [], 0⟩

def size (c : Cache) : Nat := c.ids.length

/-- The atlas id of a recipe, if it is cached. -/
def id? (c : Cache) (r : Recipe) : Option Nat := c.ids.get? r

/-- A recipe noted as a reader of a texture. -/
def addReader (r : Recipe) (readers : Table Nat (List Recipe)) (texture : Nat) : Table Nat (List Recipe) :=
  readers.insert texture ((readers.get? texture).getD [] ++ [r])

/-- A recipe no longer noted as a reader of a texture. -/
def dropReader (r : Recipe) (readers : Table Nat (List Recipe)) (texture : Nat) : Table Nat (List Recipe) :=
  match readers.get? texture with
  | none => readers
  | some others =>
    let others := others.erase r
    if others.isEmpty then readers.erase texture else readers.insert texture others

/-- A new recipe with its atlas id. -/
def enter (c : Cache) (r : Recipe) (id : Nat) : Cache :=
  { c with
    ids := c.ids.insert r id
    readers := r.dependencies.foldl (addReader r) c.readers
    animated := match Animation.start? r.animations with
      | some animation => c.animated.insert r animation
      | none => c.animated
    changedRecipes := c.changedRecipes ++ [r] }

/-- The atlas id of a recipe, which is cached from now on. When no id is left, it is the overflow id and the recipe is
not cached. -/
def get (c : Cache) (r : Recipe) : Nat × Cache :=
  match c.id? r with
  | some id => (id, c)
  | none =>
    let (id, atlas) := c.atlas.register
    let c := { c with atlas }
    if id = Atlas.overflowId then (id, c) else (id, c.enter r id)

/-- Without a recipe, whose atlas id is given back. -/
def free (c : Cache) (r : Recipe) : Cache × Except Atlas.DataError Unit :=
  match c.id? r with
  | none => (c, .ok ())
  | some id =>
    let (atlas, result) := c.atlas.remove id
    ({ c with
      atlas := atlas
      ids := c.ids.erase r
      readers := r.dependencies.foldl (dropReader r) c.readers
      animated := c.animated.erase r
      changedRecipes := c.changedRecipes.filter (· ≠ r)
      baked := c.baked.erase id }, result)

/-- With a new texture of an id. -/
def setTexture (c : Cache) (id : Nat) (texture : TextureView) : Cache :=
  { c with raw := c.raw.insert id texture, changedTextures := c.changedTextures ++ [id] }

/-- Without the texture of an id. -/
def freeTexture (c : Cache) (id : Nat) : Cache :=
  { c with raw := c.raw.erase id, changedTextures := c.changedTextures ++ [id] }

/-- The texture of an id, or else the last bake with that atlas id. -/
def host? (c : Cache) (id : Nat) : Option TextureView :=
  ((c.raw.get? id).bind TextureView.usable?).or ((c.baked.get? id).bind TextureView.usable?)

/-- What is shown for a recipe that cannot be baked: the first texture it reads, or else one magenta pixel. -/
def fallback (c : Cache) (r : Recipe) : TextureView :=
  (r.dependencies.head?.bind c.raw.get?).getD ⟨1, 1, #[0xffff00ff]⟩

/-- The picture of a recipe with the textures as they are. -/
def generate (c : Cache) (r : Recipe) : TextureView :=
  match (bake r.code c.raw.get? c.seconds).1 with
  | .ok img => (TextureView.ofImage? img).getD (c.fallback r)
  | .error _ => c.fallback r

/-- A recipe baked again and its pixels handed to the atlas, which may refuse them; the id is noted behind `ids`. -/
def refresh : Cache × List Nat → Recipe → Cache × List Nat
  | (c, ids), r =>
    match c.id? r with
    | none => (c, ids)
    | some id =>
      let picture := c.generate r
      let (atlas, _) := c.atlas.set id picture.width picture.height (picture.width * 4) (Pixel.rgbaOfAll picture.pixels)
      ({ c with atlas, baked := c.baked.insert id picture }, ids ++ [id])

/-- The recipes to bake again, in order, each once. -/
def stale (c : Cache) : List Recipe :=
  let textures := (c.changedTextures.mergeSort).eraseReps
  let readers := textures.flatMap fun texture => (c.readers.get? texture).getD []
  ((readers ++ c.changedRecipes).mergeSort Recipe.le).eraseReps

/-- Bakes what is new or changed, and tells the atlas ids of these bakes. -/
def rebake (c : Cache) : Cache × List Nat :=
  c.stale.foldl refresh ({ c with changedTextures := [], changedRecipes := [] }, [])

/-- Size of a texture as it is stored. -/
def sheetSize? (c : Cache) (id : Nat) : Option (Nat × Nat) := (c.raw.get? id).map fun t => (t.width, t.height)

/-- Bakes show this time from now on; also whether an animated recipe looks different. -/
def animate (c : Cache) (seconds : Float) : Cache × Bool :=
  let moved := c.animated.map fun (r, animation) => (r, animation.advance seconds c.sheetSize?)
  let changed := (moved.filter fun (_, changed, _) => changed).map (·.1)
  ({ c with
    seconds := seconds
    animated := moved.map fun (r, _, animation) => (r, animation)
    changedRecipes := c.changedRecipes ++ changed }, !changed.isEmpty)

/-- A line for debugging. -/
def summary (c : Cache) : String :=
  s!"PipelineCache \x7b atlas: {c.atlas.summary}, programs: {c.size}, raw: {c.raw.length}, animated: "
    ++ s!"{c.animated.length}, anim_time: {Text.Real.text c.seconds}, .. \x7d"

end Cache

end TextureLoom
