import TextureLoom.Compile.Arguments

set_option autoImplicit false

namespace TextureLoom.Compile

open Source (Complaint SyntaxError)
open Bytecode (Instr Inset)

/-- An image operand as a pipeline writes it. -/
inductive Piece where
  | name (text : String)
  | nested (pipeline : Pipeline)

/-- The operand that an argument of `op` stands for: a nested pipeline that only names a texture counts as the name,
any other needs `room` for one more level. -/
def pieceOf (op : String) (room : Nat) (a : Arg) : Checked Piece :=
  match a.value with
  | .ident name | .str name => .ok (.name name)
  | .nested ⟨.texture name _, []⟩ => .ok (.name name)
  | .nested p => if room = 0 then reject a.offset .nestedTooDeep else .ok (.nested p)
  | .int _ => reject a.offset (.notATexture op)

/-- The images of a canvas, three arguments each. -/
def insetsOf (room : Nat) : List Arg → Array (Inset Piece) → Checked (List (Inset Piece))
  | ax :: ay :: source :: rest, done => do
    let x ← coordinateOf ax
    let y ← coordinateOf ay
    let piece ← pieceOf "combine" room source
    insetsOf room rest (done.push ⟨x, y, piece⟩)
  | _, done => pure done.toList

/-- The instruction of a canvas call. -/
def canvasInstr (room : Nat) (call : Call) : Checked (Instr Piece) :=
  match call.args.find? (·.name.isSome) with
  | some named => reject named.offset .combineNamed
  | none =>
    match call.args with
    | aw :: ah :: insets =>
      if insets.length % 3 ≠ 0 then reject call.offset .combineIncomplete
      else do
        let w ← sideOf "combine" "combine width" aw
        let h ← sideOf "combine" "combine height" ah
        if 65535 < insets.length / 3 then reject call.offset .combineTooMany
        else pure (.combine w h (← insetsOf room insets #[]))
    | _ => reject call.offset .combineIncomplete

/-- The instruction of a base image. -/
def baseInstr (room : Nat) : Base → Checked (Instr Piece)
  | .texture name _ => .ok (.texture (.name name))
  | .fill width height color offset => do
    let w ← side "fill width" offset width
    let h ← side "fill height" offset height
    match Pixel.ofHexText? color with
    | some c => pure (.fill w h c)
    | none => reject offset (.invalidFillColor color)
  | .sheet call => do
    checkArgs call ("tex" :: animationNames) 6
    match call.arg? ["tex"] (some 0) with
    | none => reject call.offset .animationWithoutTexture
    | some source =>
      let params ← animationOf call 1
      pure (.sheet (← pieceOf "anim" room source) params)
  | .canvas call => canvasInstr room call

/-- The instruction of a stage. -/
def stageInstr (room : Nat) (call : Call) : Checked (Instr Piece) :=
  match call.name with
  | "overlay" => do
    checkArgs call ["tex", "src"] 1
    pure (.overlay (← pieceOf call.name room (← required call "tex" ["src"] 0)))
  | "mask" => do
    checkArgs call ["tex", "src"] 1
    pure (.mask (← pieceOf call.name room (← required call "tex" ["src"] 0)))
  | "lowpart" => do
    checkArgs call ["percent", "pct", "tex", "src"] 2
    let percentArg ← required call "percent" ["pct"] 0
    let percent ← intOf call.name percentArg
    if percent ≤ 0 then reject percentArg.offset .percentNotPositive
    else
      let source ← required call "tex" ["src"] 1
      pure (.lowPart (byteOf (min percent 100)) (← pieceOf call.name room source))
  | "resize" => do
    checkArgs call ["w", "width", "h", "height"] 2
    let aw ← required call "w" ["width"] 0
    let ah ← required call "h" ["height"] 1
    let w ← sideOf call.name "resize width" aw
    pure (.resize w (← sideOf call.name "resize height" ah))
  | "transform" => do
    checkArgs call ["t", "mode"] 1
    let mode ← intOf call.name (← required call "t" ["mode"] 0)
    pure (.transform (mode % 8).toNat.toUInt8)
  | "opacity" => do
    checkArgs call ["a", "alpha", "value"] 1
    pure (.opacity (byteOf (← intOr call 255 ["a", "alpha", "value"] 0)))
  | "remove_alpha" | "noalpha" => do
    checkArgs call [] 0
    pure .dropAlpha
  | "make_alpha" => do
    checkArgs call ["color"] 1
    let c ← colorOf call.name (← required call "color" [] 0)
    pure (.keyColor c.red.toUInt8 c.green.toUInt8 c.blue.toUInt8)
  | "invert" => do
    checkArgs call ["channels"] 1
    match call.arg? ["channels"] (some 0) with
    | some a => pure (.invert (← channelsOf a))
    | none => pure (.invert 7)
  | "brighten" => do
    checkArgs call [] 0
    pure .brighten
  | "contrast" => do
    checkArgs call ["value", "contrast", "brightness"] 2
    let level ← intOr call 0 ["value", "contrast"] 0
    pure (.contrast (storedOperand level) (storedOperand (← intOr call 0 ["brightness"] 1)))
  | "multiply" => do
    checkArgs call ["color"] 1
    pure (.multiply (← colorOf call.name (← required call "color" [] 0)))
  | "screen" => do
    checkArgs call ["color"] 1
    pure (.screen (← colorOf call.name (← required call "color" [] 0)))
  | "colorize" => do
    checkArgs call ["color", "ratio"] 2
    let color ← colorOf call.name (← required call "color" [] 0)
    pure (.colorize color (byteOf (← intOr call 255 ["ratio"] 1)))
  | "anim" => do
    checkArgs call animationNames 5
    pure (.animate (← animationOf call 0))
  | other => reject call.offset (.unknownOperation other)

end TextureLoom.Compile
