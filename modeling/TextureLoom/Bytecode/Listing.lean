import TextureLoom.Bytecode.Block
import TextureLoom.Text.Quoted

set_option autoImplicit false

namespace TextureLoom.Bytecode

namespace Listing

/-- A texture name and the offset of the id field that stands for it. -/
structure Patch where
  field : Nat
  name : String
deriving DecidableEq, Repr

def source (patches : List Patch) (o : Operand) : String :=
  match o.origin with
  | .texture id =>
    match patches.find? (·.field == o.field) with
    | some patch => s!"tex#{id} ({Text.quoted patch.name})"
    | none => s!"tex#{id}"
  | .block offset length => s!"sub@{offset}+{length}"

def params (p : AnimParams) : String :=
  let axis := if p.isGrid then "grid" else if p.isHorizontal then "horizontal" else "vertical"
  let rate := Text.hundredths p.rate.toNat 256
  let smooth := if p.isSmooth then " smooth" else ""
  s!"frame={p.frameWidth.toNat}x{p.frameHeight.toNat} frames={p.frames.toNat} fps={rate} axis={axis}{smooth}"

def color (c : Pixel) : String := "#" ++ Text.hexUpper 8 c.toNat

/-- The operands of an instruction, each behind a space. -/
def operands (patches : List Patch) : Instr Operand → String
  | .texture s | .overlay s | .mask s => " " ++ source patches s
  | .fill w h c => s!" {w.toNat}x{h.toNat} {color c}"
  | .sheet s p => s!" {source patches s} {params p}"
  | .resize w h => s!" {w.toNat}x{h.toNat}"
  | .transform v | .opacity v => s!" {v.toNat}"
  | .dropAlpha | .brighten => ""
  | .keyColor r g b => " #" ++ Text.hexUpper 2 r.toNat ++ Text.hexUpper 2 g.toNat ++ Text.hexUpper 2 b.toNat
  | .invert mask => " mask=0b" ++ Text.binary 4 mask.toNat
  | .contrast level brightness => s!" {signedOperand level} {signedOperand brightness}"
  | .multiply c | .screen c => " " ++ color c
  | .colorize c ratio => s!" {color c} ratio={ratio.toNat}"
  | .animate p => " " ++ params p
  | .lowPart percent s => s!" {percent.toNat}% {source patches s}"
  | .combine w h insets =>
    s!" {w.toNat}x{h.toNat}"
      ++ String.join (insets.map fun p => s!" [{p.x.toNat},{p.y.toNat} {source patches p.source}]")

def line (position : Nat) (text : String) : String := Text.decimal 5 position ++ "  " ++ text ++ "\n"

/-- One line for each instruction from the window's front on, a heading wherever a block starts behind another one;
the first bytes that are no instruction end the listing. -/
def lines (patches : List Patch) : Nat → Bool → Window → String → String
  | 0, _, _, done => done
  | turns + 1, startsBlock, w, done =>
    if w.bytes.isEmpty then done
    else
      let done := if startsBlock && w.position != 0 then s!"{done}sub@{w.position}:\n" else done
      match Reader.instr.run w with
      | .error e => done ++ line w.position s!"<error: {e.message}>"
      | .ok (none, rest) => lines patches turns true rest (done ++ line w.position "end")
      | .ok (some i, rest) =>
        lines patches turns false rest (done ++ line w.position (i.mnemonic ++ operands patches i))

end Listing

/-- The readable listing of a program, with names at the ids that stand for one. -/
def listing (code : Array UInt8) (patches : List Listing.Patch) : String :=
  let w := Window.of code 0 code.size
  Listing.lines patches (w.bytes.length + 1) true w ""

end TextureLoom.Bytecode
