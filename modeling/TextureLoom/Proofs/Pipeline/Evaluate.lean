import TextureLoom.Bake.Machine
import TextureLoom.Compile.Arguments

set_option autoImplicit false

namespace TextureLoom.Pipeline

open Bytecode (AnimParams)

/-- What a pipeline is evaluated against: the ids of texture names, the textures by id, and a time. -/
structure Setting where
  ids : String → Nat
  provider : Provider
  seconds : Float

abbrev Outcome := Except BakeError

/-- The image of a texture name. -/
def Setting.named (s : Setting) (name : String) : Outcome Image :=
  match (s.provider (s.ids name)).bind TextureView.image? with
  | some img => .ok img
  | none => .error (.missingTexture (s.ids name))

/-- What an argument stands for. -/
inductive Meaning where
  | number (value : Int)
  | text (content : String)
  /-- What a nested pipeline gives on its own. -/
  | image (result : Outcome Image)

/-- The image that an argument stands for, a text being a texture name. -/
def Meaning.toImage (s : Setting) : Meaning → Outcome Image
  | .number _ => .ok default
  | .text name => s.named name
  | .image result => result

/-- An argument that has been evaluated. -/
structure Reading where
  name : Option String
  meaning : Meaning

/-- The meanings of a call's arguments. Those that are missing, or not of the wanted kind, have a value all the same,
which no accepted pipeline makes use of. -/
abbrev Readings := List Reading

/-- The bits of some colour channels. -/
def channelBits (red green blue alpha : Bool) : UInt8 :=
  (if red then 1 else 0) ||| (if green then 2 else 0) ||| (if blue then 4 else 0) ||| (if alpha then 8 else 0)

/-- Whether a text has a letter in either case. -/
def lists (listed : String) (letter : Char) : Bool := listed.toList.any fun c => c.toLower == letter

namespace Readings

/-- The first argument with one of `names`, else the unnamed one at `position`. -/
def get? (args : Readings) (names : List String) (position : Option Nat) : Option Meaning :=
  match args.find? fun a => a.name.any names.contains with
  | some a => some a.meaning
  | none => position.bind fun i => ((args.filter (·.name.isNone))[i]?).map (·.meaning)

def number (args : Readings) (fallback : Int) (names : List String) (position : Nat) : Int :=
  match args.get? names (some position) with
  | some (.number v) => v
  | _ => fallback

def text? (args : Readings) (names : List String) (position : Option Nat) : Option String :=
  match args.get? names position with
  | some (.text t) => some t
  | _ => none

def color (args : Readings) (names : List String) (position : Nat) : Pixel :=
  ((args.text? names (some position)).bind Pixel.ofHexText?).getD 0

def image (s : Setting) (args : Readings) (names : List String) (position : Nat) : Outcome Image :=
  match args.get? names (some position) with
  | some m => m.toImage s
  | none => .ok default

/-- The colour channels that a text lists, or all but alpha without one. -/
def channels (args : Readings) : UInt8 :=
  match args.text? ["channels"] (some 0) with
  | none => 7
  | some listed => channelBits (lists listed 'r') (lists listed 'g') (lists listed 'b') (lists listed 'a')

/-- Whole frames a second; zero stands for the usual rate. -/
def rate (args : Readings) (position : Nat) : UInt16 :=
  let fps := args.number 0 ["fps"] position
  if fps = 0 then AnimParams.defaultRate else (min (fps * 256) 65535).toNat.toUInt16

/-- How a sheet is cut and shown; the frame width is the unnamed argument number `shift`. -/
def frames (args : Readings) (shift : Nat) : AnimParams where
  frameWidth := (args.number 0 ["frame_w", "w"] shift).toNat.toUInt16
  frameHeight := (args.number 0 ["frame_h", "h"] (shift + 1)).toNat.toUInt16
  frames := (args.number 0 ["frames", "count"] (shift + 2)).toNat.toUInt16
  rate := args.rate (shift + 3)
  flags := (if args.number 0 ["smooth"] (shift + 4) = 0 then 0 else AnimParams.smoothFlag)
    ||| Compile.axisFlag ((args.text? ["axis"] none).getD "")

end Readings

/-- A frame of a sheet at the time of the setting. -/
def animated (s : Setting) (params : AnimParams) (sheet : Image) : Outcome Image := do
  Bake.checkFrames params sheet
  pure (sheet.animate params s.seconds)

/-- One colour over a size. -/
def filled (width height : Int) (color : Pixel) : Outcome Image := do
  Bake.checkSize width.toNat height.toNat
  pure (.solid width.toNat height.toNat color)

/-- The images of a canvas, each behind its column and row, laid on it in order. -/
def laid (s : Setting) : List Meaning → Image → Outcome Image
  | .number x :: .number y :: source :: rest, canvas => do
    let img ← source.toImage s
    laid s rest (canvas.overlayAt img x.toNat y.toNat)
  | _, canvas => .ok canvas

/-- An empty canvas of the size that the first two arguments give, with the others laid on it. -/
def canvas (s : Setting) : List Meaning → Outcome Image
  | .number width :: .number height :: insets => do
    laid s insets (← filled width height 0)
  | _ => .ok default

/-- What a stage makes of an image. -/
def applyStage (s : Setting) (name : String) (args : Readings) (img : Image) : Outcome Image :=
  match name with
  | "overlay" => do
    let top ← args.image s ["tex", "src"] 0
    pure (img.overlay (top.fit img.width img.height))
  | "mask" => do
    let mask ← args.image s ["tex", "src"] 0
    pure (img.applyMask (mask.fit img.width img.height))
  | "lowpart" => do
    let top ← args.image s ["tex", "src"] 1
    pure (img.lowPart (top.fit img.width img.height) (min (args.number 0 ["percent", "pct"] 0) 100).toNat)
  | "resize" => do
    let width := (args.number 0 ["w", "width"] 0).toNat
    let height := (args.number 0 ["h", "height"] 1).toNat
    Bake.checkSize width height
    pure (img.resize width height)
  | "transform" => pure (img.orient (args.number 0 ["t", "mode"] 0 % 8).toNat)
  | "opacity" => pure (img.fade (Pixel.clampChannel (args.number 255 ["a", "alpha", "value"] 0)))
  | "remove_alpha" | "noalpha" => pure img.dropAlpha
  | "make_alpha" =>
    let key := args.color ["color"] 0
    pure (img.keyColor key.red key.green key.blue)
  | "invert" => pure (img.invert args.channels)
  | "brighten" => pure img.brighten
  | "contrast" =>
    let level := args.number 0 ["value", "contrast"] 0
    let brightness := args.number 0 ["brightness"] 1
    pure (img.contrast (max (-127) (min level 127)) (max (-127) (min brightness 127)))
  | "multiply" => pure (img.multiply (args.color ["color"] 0))
  | "screen" => pure (img.screen (args.color ["color"] 0))
  | "colorize" =>
    pure (img.colorize (args.color ["color"] 0) (Pixel.clampChannel (args.number 255 ["ratio"] 1)))
  | "anim" => animated s (args.frames 0) img
  | _ => pure img

end TextureLoom.Pipeline

namespace TextureLoom

open Pipeline (Setting Outcome Meaning Readings Reading)

mutual

/-- The image of a pipeline: its base, then its stages in order. -/
def Pipeline.evaluate (s : Setting) : Pipeline → Outcome Image
  | ⟨base, stages⟩ => do
    let img ← base.evaluate s
    Pipeline.evaluateStages s stages img

def Base.evaluate (s : Setting) : Base → Outcome Image
  | .texture name _ => s.named name
  | .fill width height color _ => Pipeline.filled width height ((Pixel.ofHexText? color).getD 0)
  | .sheet ⟨_, args, _⟩ => do
    let readings := Pipeline.read s args
    let sheet ← readings.image s ["tex"] 0
    Pipeline.animated s (readings.frames 1) sheet
  | .canvas ⟨_, args, _⟩ => Pipeline.canvas s ((Pipeline.read s args).map (·.meaning))

def Pipeline.evaluateStages (s : Setting) : List Call → Image → Outcome Image
  | [], img => .ok img
  | ⟨name, args, _⟩ :: rest, img => do
    let img ← Pipeline.applyStage s name (Pipeline.read s args) img
    Pipeline.evaluateStages s rest img

/-- The arguments of a call with nested pipelines evaluated, each from scratch. -/
def Pipeline.read (s : Setting) : List Arg → Readings
  | [] => []
  | ⟨name, value, _⟩ :: rest => ⟨name, value.meaning s⟩ :: Pipeline.read s rest

def Value.meaning (s : Setting) : Value → Meaning
  | .int v => .number v
  | .str content => .text content
  | .ident name => .text name
  | .nested p => .image (p.evaluate s)

end

end TextureLoom
