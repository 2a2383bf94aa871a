import TextureLoom.Json

set_option autoImplicit false

namespace TextureLoom.Atlas

/-- The sides that an atlas image can have, ascending. -/
def allowedSides : List Nat := [1024, 2048, 4096]

/-- The longest of them. -/
def largestSide : Nat := 4096

/-- Layers of an atlas image, at most. -/
def layerLimit : Nat := 16

/-- Bytes of one entry of the descriptor table. -/
def entryBytes : Nat := 32

/-- How an atlas is set up. -/
structure Config where
  /-- Entries of the descriptor table, those of reserved ids included. -/
  maxTextureId : Nat := 4096
  initialSide : Nat := 1024
  maxLayers : Nat := layerLimit
  /-- Texels around each texture that repeat its edge. -/
  padding : Nat := 2
  /-- The longest side of a texture. -/
  maxTextureSize : Nat := 2048
  /-- Bytes of an atlas's own staging buffer. -/
  stagingBytes : Nat := 67108864
deriving DecidableEq, Repr

/-- Why a configuration cannot be used. -/
inductive ConfigError where
  | initialSide (value : Nat)
  | maxLayers (value : Nat)
  | padding (value : Nat)
  | maxTextureId (value : Nat)
  | maxTextureSize (value : Nat)
  | stagingBytes (value needed : Nat)
  | notADocument
  | emptyStaging
  | smallStaging (value needed : Nat)
deriving DecidableEq, Repr

def ConfigError.message : ConfigError → String
  | .initialSide value => s!"initial_side must be 1024, 2048 or 4096 (got {value})"
  | .maxLayers value => s!"max_layers must be 1..={layerLimit} (got {value})"
  | .padding value => s!"padding_px must be <= 64 (got {value})"
  | .maxTextureId value => s!"max_texture_id must be > max_layers + 1 reserved ids (got {value})"
  | .maxTextureSize value => s!"max_texture_size must be 1..=4096 (got {value})"
  | .stagingBytes value needed => s!"staging_bytes ({value}) cannot hold the descriptor table ({needed} bytes)"
  | .notADocument => "invalid atlas config json"
  | .emptyStaging => "staging buffer size must be > 0"
  | .smallStaging value needed =>
    s!"staging buffer ({value} bytes) cannot hold the descriptor table ({needed} bytes)"

namespace Config

/-- Ids at the start that stand for no texture: one for overflow and one for each layer. -/
def reservedCount (c : Config) : Nat := c.maxLayers + 1

/-- Bytes of the descriptor table. -/
def tableBytes (c : Config) : Nat := c.maxTextureId * entryBytes

def validate (c : Config) : Except ConfigError Unit :=
  if !allowedSides.contains c.initialSide then .error (.initialSide c.initialSide)
  else if c.maxLayers = 0 ∨ layerLimit < c.maxLayers then .error (.maxLayers c.maxLayers)
  else if 64 < c.padding then .error (.padding c.padding)
  else if c.maxTextureId ≤ c.reservedCount then .error (.maxTextureId c.maxTextureId)
  else if c.maxTextureSize = 0 ∨ largestSide < c.maxTextureSize then .error (.maxTextureSize c.maxTextureSize)
  else if c.stagingBytes < c.tableBytes then .error (.stagingBytes c.stagingBytes c.tableBytes)
  else .ok ()

/-- A field of a configuration document: its name, the first number too large for it and how it is set. -/
structure Field where
  name : String
  limit : Nat
  set : Config → Nat → Config

/-- The fields in the order of the array form. -/
def fields : List Field := [
  ⟨"max_texture_id", 0x100000000, fun c v => { c with maxTextureId := v }⟩,
  ⟨"initial_side", 0x100000000, fun c v => { c with initialSide := v }⟩,
  ⟨"max_layers", 0x100000000, fun c v => { c with maxLayers := v }⟩,
  ⟨"padding_px", 0x100000000, fun c v => { c with padding := v }⟩,
  ⟨"max_texture_size", 0x100000000, fun c v => { c with maxTextureSize := v }⟩,
  ⟨"staging_bytes", 0x10000000000000000, fun c v => { c with stagingBytes := v }⟩]

/-- The configuration with a field read from its document. -/
def Field.read (f : Field) (document : Json) (c : Config) : Option Config :=
  match document.nat? with
  | some v => if v < f.limit then some (f.set c v) else none
  | none => none

/-- The members of the object form; each names a field, no two the same. -/
def ofMembers (c : Config) (seen : List String) : List (String × Json) → Option Config
  | [] => some c
  | (name, document) :: rest =>
    if seen.contains name then none
    else
      match fields.find? (·.name == name) with
      | none => none
      | some f =>
        match f.read document c with
        | none => none
        | some c => ofMembers c (name :: seen) rest

/-- The items of the array form; the fields behind the last one keep their values. -/
def ofItems (c : Config) : List Field → List Json → Option Config
  | _, [] => some c
  | [], _ :: _ => none
  | f :: fields, document :: rest =>
    match f.read document c with
    | none => none
    | some c => ofItems c fields rest

/-- The configuration that a document describes, unchecked; what it does not give has its default. -/
def ofJson? : Json → Option Config
  | .object members => ofMembers {} [] members
  | .array items => ofItems {} fields items
  | _ => none

/-- The valid configuration that a text describes. -/
def parse (text : String) : Except ConfigError Config :=
  match (Json.parse? text).bind ofJson? with
  | none => .error .notADocument
  | some c => do
    c.validate
    pure c

end Config

end TextureLoom.Atlas
