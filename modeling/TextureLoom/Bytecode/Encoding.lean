import TextureLoom.Bytecode.Instr

set_option autoImplicit false

namespace TextureLoom.Bytecode

namespace Encoding

def word16 (v : UInt16) : List UInt8 := Bytes.littleEndian v.toNat 2
def word24 (v : Nat) : List UInt8 := Bytes.littleEndian v 3
def word32 (v : UInt32) : List UInt8 := Bytes.littleEndian v.toNat 4

def params (p : AnimParams) : List UInt8 :=
  word16 p.frameWidth ++ word16 p.frameHeight ++ word16 p.frames ++ word16 p.rate ++ [p.flags]

end Encoding

open Encoding

/-- A kind byte, then an id or a range. -/
def Origin.encode : Origin → List UInt8
  | .texture id => 0 :: word24 id
  | .block offset length => 1 :: word24 offset ++ word24 length

/-- The byte that ends a block. -/
def finishCode : UInt8 := 0

/-- The bytes of an instruction. -/
def Instr.encode : Instr Origin → List UInt8
  | .texture s => 1 :: s.encode
  | .fill w h c => 2 :: word16 w ++ word16 h ++ word32 c
  | .sheet s p => 3 :: s.encode ++ params p
  | .resize w h => 10 :: word16 w ++ word16 h
  | .transform t => [11, t]
  | .opacity a => [12, a]
  | .dropAlpha => [13]
  | .keyColor r g b => [14, r, g, b]
  | .invert m => [15, m]
  | .brighten => [16]
  | .contrast c b => [17, c, b]
  | .multiply c => 18 :: word32 c
  | .screen c => 19 :: word32 c
  | .colorize c r => 20 :: word32 c ++ [r]
  | .animate p => 21 :: params p
  | .overlay s => 30 :: s.encode
  | .mask s => 31 :: s.encode
  | .lowPart p s => 32 :: p :: s.encode
  | .combine w h insets =>
    40 :: word16 w ++ word16 h ++ Bytes.littleEndian insets.length 2
      ++ insets.flatMap fun p => word16 p.x ++ word16 p.y ++ p.source.encode

end TextureLoom.Bytecode
