import TextureLoom.Bytes

set_option autoImplicit false

/-!
Compressed streams: bits are taken from each byte lowest first, blocks are stored as they are or coded with prefix
codes that are given by the lengths of their words.
-/

namespace TextureLoom.Png

/-- A number of `count` bits from bit `position` on, the lowest first. -/
def bitsAt? (bytes : ByteArray) (position count : Nat) : Option Nat :=
  if bytes.size * 8 < position + count then none
  else some (count.fold (fun i _ value =>
    let bit := ((Bytes.byteAt bytes ((position + i) / 8)).toNat >>> ((position + i) % 8)) % 2
    value + bit <<< i) 0)

/-- The longest word of a prefix code. -/
def wordLimit : Nat := 15

/-- A prefix code: how many words there are of each length, and the symbols in the order of their words. -/
structure PrefixCode where
  counts : Array Nat
  symbols : Array Nat

namespace PrefixCode

/-- The code in which symbol `i` has a word of length `lengths[i]`, or none for length zero. -/
def ofLengths (lengths : Array Nat) : PrefixCode where
  counts := Array.ofFn fun length : Fin (wordLimit + 1) => if length.val = 0 then 0 else lengths.count length.val
  symbols := ((List.range' 1 wordLimit).flatMap fun length =>
    (List.range lengths.size).filter fun symbol => lengths.getD symbol 0 == length).toArray

/-- Reads on in a word: `code` are its bits so far, `first` the first word of this length and `index` the number of
shorter words. -/
def readFrom (c : PrefixCode) (bytes : ByteArray) : Nat → Nat → Nat → Nat → Nat → Nat → Option (Nat × Nat)
  | 0, _, _, _, _, _ => none
  | room + 1, length, code, first, index, position => do
    let code := code * 2 + (← bitsAt? bytes position 1)
    let first := first * 2
    let count := c.counts.getD length 0
    if code < first + count then
      let symbol ← c.symbols[index + (code - first)]?
      pure (symbol, position + 1)
    else c.readFrom bytes room (length + 1) code (first + count) (index + count) (position + 1)

/-- The symbol whose word starts at a bit, and the bit behind the word. -/
def read? (c : PrefixCode) (bytes : ByteArray) (position : Nat) : Option (Nat × Nat) :=
  c.readFrom bytes wordLimit 1 0 0 0 position

end PrefixCode

/-- The least match length of each length symbol and the bits that are added to it. -/
def lengthSymbols : Array (Nat × Nat) := #[
  (3, 0), (4, 0), (5, 0), (6, 0), (7, 0), (8, 0), (9, 0), (10, 0), (11, 1), (13, 1), (15, 1), (17, 1), (19, 2),
  (23, 2), (27, 2), (31, 2), (35, 3), (43, 3), (51, 3), (59, 3), (67, 4), (83, 4), (99, 4), (115, 4), (131, 5),
  (163, 5), (195, 5), (227, 5), (258, 0)]

/-- The least distance of each distance symbol and the bits that are added to it. -/
def distanceSymbols : Array (Nat × Nat) := #[
  (1, 0), (2, 0), (3, 0), (4, 0), (5, 1), (7, 1), (9, 2), (13, 2), (17, 3), (25, 3), (33, 4), (49, 4), (65, 5),
  (97, 5), (129, 6), (193, 6), (257, 7), (385, 7), (513, 8), (769, 8), (1025, 9), (1537, 9), (2049, 10), (3073, 10),
  (4097, 11), (6145, 11), (8193, 12), (12289, 12), (16385, 13), (24577, 13)]

/-- The number that a symbol and the bits behind it stand for. -/
def extended? (table : Array (Nat × Nat)) (symbol : Nat) (bytes : ByteArray) (position : Nat) :
    Option (Nat × Nat) := do
  let (base, extra) ← table[symbol]?
  pure (base + (← bitsAt? bytes position extra), position + extra)

/-- Repeats `count` bytes from `distance` back. -/
def copyBack (distance : Nat) : Nat → ByteArray → ByteArray
  | 0, out => out
  | count + 1, out => copyBack distance count (out.push (Bytes.byteAt out (out.size - distance)))

/-- Reads symbols up to the end of a coded block; `room` bounds their number. -/
def readSymbols (literals distances : PrefixCode) (bytes : ByteArray) :
    Nat → Nat → ByteArray → Option (Nat × ByteArray)
  | 0, _, _ => none
  | room + 1, position, out => do
    let (symbol, position) ← literals.read? bytes position
    if symbol < 256 then readSymbols literals distances bytes room position (out.push symbol.toUInt8)
    else if symbol = 256 then pure (position, out)
    else
      let (length, position) ← extended? lengthSymbols (symbol - 257) bytes position
      let (symbol, position) ← distances.read? bytes position
      let (distance, position) ← extended? distanceSymbols symbol bytes position
      if out.size < distance then none
      else readSymbols literals distances bytes room position (copyBack distance length out)

/-- The word lengths of the fixed codes. -/
def fixedLengths : Array Nat :=
  Array.replicate 144 8 ++ Array.replicate 112 9 ++ Array.replicate 24 7 ++ Array.replicate 8 8

/-- The order in which the word lengths of the length code come. -/
def lengthOrder : List Nat := [16, 17, 18, 0, 8, 7, 9, 6, 10, 5, 11, 4, 12, 3, 13, 2, 14, 1, 15]

/-- The word lengths of the length code, three bits each. -/
def lengthLengths? (bytes : ByteArray) (position : Nat) (order : List Nat) : Option (Array Nat) :=
  order.zipIdx.foldlM (fun lengths (symbol, i) => do
    pure (lengths.setIfInBounds symbol (← bitsAt? bytes (position + 3 * i) 3))) (Array.replicate 19 0)

/-- Reads `total` word lengths, of which some symbols repeat the last one or zero. -/
def readLengths (code : PrefixCode) (bytes : ByteArray) (total : Nat) :
    Nat → Nat → Array Nat → Option (Nat × Array Nat)
  | 0, _, _ => none
  | room + 1, position, lengths => do
    if lengths.size = total then pure (position, lengths)
    else if total < lengths.size then none
    else
      let (symbol, position) ← code.read? bytes position
      if symbol < 16 then readLengths code bytes total room position (lengths.push symbol)
      else
        let (value, base, extra) ← match symbol with
          | 16 => lengths.back?.map fun last => (last, 3, 2)
          | 17 => some (0, 3, 3)
          | _ => some (0, 11, 7)
        let count := base + (← bitsAt? bytes position extra)
        readLengths code bytes total room (position + extra) (lengths ++ Array.replicate count value)

/-- The codes at the start of a block, and the bit behind them. -/
def readCodes (bytes : ByteArray) (position : Nat) : Option (PrefixCode × PrefixCode × Nat) := do
  let literalCount := (← bitsAt? bytes position 5) + 257
  let distanceCount := (← bitsAt? bytes (position + 5) 5) + 1
  let order := lengthOrder.take ((← bitsAt? bytes (position + 10) 4) + 4)
  let lengthCode := PrefixCode.ofLengths (← lengthLengths? bytes (position + 14) order)
  let total := literalCount + distanceCount
  let (position, lengths) ←
    readLengths lengthCode bytes total (total + 1) (position + 14 + 3 * order.length) #[]
  pure (.ofLengths (lengths.extract 0 literalCount), .ofLengths (lengths.extract literalCount total), position)

/-- A block that is stored as it is, from the next whole byte on. -/
def readStored (bytes : ByteArray) (position : Nat) (out : ByteArray) : Option (Nat × ByteArray) := do
  let start := (position + 7) / 8
  let size ← bitsAt? bytes (start * 8) 16
  let check ← bitsAt? bytes (start * 8 + 16) 16
  if size + check ≠ 65535 ∨ bytes.size < start + 4 + size then none
  else pure ((start + 4 + size) * 8, out ++ bytes.extract (start + 4) (start + 4 + size))

/-- One block behind its three leading bits. -/
def readBlock (bytes : ByteArray) (kind position : Nat) (out : ByteArray) : Option (Nat × ByteArray) := do
  let room := bytes.size * 8 + 1
  match kind with
  | 0 => readStored bytes position out
  | 1 =>
    readSymbols (.ofLengths fixedLengths) (.ofLengths (Array.replicate 30 5)) bytes room position out
  | 2 =>
    let (literals, distances, position) ← readCodes bytes position
    readSymbols literals distances bytes room position out
  | _ => none

/-- Blocks up to the one marked as the last; `room` bounds their number. -/
def readBlocks (bytes : ByteArray) : Nat → Nat → ByteArray → Option ByteArray
  | 0, _, _ => none
  | room + 1, position, out => do
    let last ← bitsAt? bytes position 1
    let kind ← bitsAt? bytes (position + 1) 2
    let (position, out) ← readBlock bytes kind (position + 3) out
    if last = 1 then pure out else readBlocks bytes room position out

/-- The content of a compressed stream with its two-byte header. -/
def inflate? (bytes : ByteArray) : Option ByteArray :=
  let method := (Bytes.byteAt bytes 0).toNat
  let flags := (Bytes.byteAt bytes 1).toNat
  if method % 16 ≠ 8 ∨ (method * 256 + flags) % 31 ≠ 0 ∨ flags / 32 % 2 = 1 then none
  else readBlocks bytes (bytes.size * 8) 16 ByteArray.empty

end TextureLoom.Png
