import TextureLoom.Bytecode.Encoding
import TextureLoom.Proofs.Bytes

set_option autoImplicit false

namespace TextureLoom.Bytecode

open Encoding

/-- A stretch of an encoded instruction: fixed bytes, or an image operand. -/
inductive Stretch (σ : Type) where
  | bytes (run : List UInt8)
  | operand (source : σ)

namespace Stretch

variable {σ τ : Type}

def size (sizeOf : σ → Nat) : Stretch σ → Nat
  | .bytes run => run.length
  | .operand s => sizeOf s

def encode (encodeSource : σ → List UInt8) : Stretch σ → List UInt8
  | .bytes run => run
  | .operand s => encodeSource s

def operand? : Stretch σ → Option σ
  | .bytes _ => none
  | .operand s => some s

/-- The operands of some parts, `f` being given the offset of each one's first byte. -/
def place (sizeOf : σ → Nat) (f : Nat → σ → τ) : Nat → List (Stretch σ) → List τ
  | _, [] => []
  | start, .bytes run :: rest => place sizeOf f (start + run.length) rest
  | start, .operand s :: rest => f start s :: place sizeOf f (start + sizeOf s) rest

/-- The bytes of some parts, `f` giving those of an operand whose first byte is at some offset. -/
def spell (sizeOf : σ → Nat) (f : Nat → σ → List UInt8) : Nat → List (Stretch σ) → List UInt8
  | _, [] => []
  | start, .bytes run :: rest => run ++ spell sizeOf f (start + run.length) rest
  | start, .operand s :: rest => f start s ++ spell sizeOf f (start + sizeOf s) rest

theorem place_append (sizeOf : σ → Nat) (f : Nat → σ → τ) (first second : List (Stretch σ)) (start : Nat) :
    place sizeOf f start (first ++ second) =
      place sizeOf f start first ++ place sizeOf f (start + (first.map (size sizeOf)).sum) second := by
  induction first generalizing start with
  | nil => simp [place]
  | cons part rest ih =>
    cases part with
    | bytes run => simp [place, ih, size, Nat.add_assoc]
    | operand s => simp [place, ih, size, Nat.add_assoc]

/-- The bytes of a part are as many as its size says. -/
theorem encode_length {sizeOf : σ → Nat} {encodeSource : σ → List UInt8}
    (sized : ∀ s, (encodeSource s).length = sizeOf s) (parts : List (Stretch σ)) :
    (parts.flatMap (encode encodeSource)).length = (parts.map (size sizeOf)).sum := by
  induction parts with
  | nil => rfl
  | cons part rest ih => cases part <;> simp [encode, size, ih, sized]

end Stretch

namespace Inset

variable {σ : Type}

def parts (inset : Inset σ) : List (Stretch σ) := [.bytes (word16 inset.x ++ word16 inset.y), .operand inset.source]

end Inset

namespace Instr

variable {σ τ υ : Type}

/-- The stretches that the encoding of an instruction consists of. -/
def parts : Instr σ → List (Stretch σ)
  | .texture s => [.bytes [1], .operand s]
  | .fill w h c => [.bytes (2 :: word16 w ++ word16 h ++ word32 c)]
  | .sheet s p => [.bytes [3], .operand s, .bytes (params p)]
  | .resize w h => [.bytes (10 :: word16 w ++ word16 h)]
  | .transform t => [.bytes [11, t]]
  | .opacity a => [.bytes [12, a]]
  | .dropAlpha => [.bytes [13]]
  | .keyColor r g b => [.bytes [14, r, g, b]]
  | .invert m => [.bytes [15, m]]
  | .brighten => [.bytes [16]]
  | .contrast c b => [.bytes [17, c, b]]
  | .multiply c => [.bytes (18 :: word32 c)]
  | .screen c => [.bytes (19 :: word32 c)]
  | .colorize c r => [.bytes (20 :: word32 c ++ [r])]
  | .animate p => [.bytes (21 :: params p)]
  | .overlay s => [.bytes [30], .operand s]
  | .mask s => [.bytes [31], .operand s]
  | .lowPart p s => [.bytes [32, p], .operand s]
  | .combine w h insets =>
    .bytes (40 :: word16 w ++ word16 h ++ Bytes.littleEndian insets.length 2) :: insets.flatMap Inset.parts

@[simp] theorem word16_length (v : UInt16) : (word16 v).length = 2 := Bytes.littleEndian_length _ _

@[simp] theorem word24_length (v : Nat) : (word24 v).length = 3 := Bytes.littleEndian_length _ _

@[simp] theorem word32_length (v : UInt32) : (word32 v).length = 4 := Bytes.littleEndian_length _ _

@[simp] theorem params_length (p : AnimParams) : (params p).length = 9 := by
  simp only [params, List.length_append, word16_length, List.length_singleton]

theorem placeInsets_eq (sizeOf : σ → Nat) (f : Nat → σ → τ) (insets : List (Inset σ)) (start : Nat)
    (done : Array (Inset τ)) :
    place.placeInsets sizeOf f start done insets =
      done.toList ++ place.placeInsets sizeOf f start #[] insets := by
  induction insets generalizing start done with
  | nil => simp [place.placeInsets]
  | cons inset rest ih =>
    simp only [place.placeInsets]
    rw [ih _ (done.push _), ih _ (Array.push #[] _)]
    simp

theorem placeInsets_cons (sizeOf : σ → Nat) (f : Nat → σ → τ) (inset : Inset σ) (rest : List (Inset σ))
    (start : Nat) :
    place.placeInsets sizeOf f start #[] (inset :: rest) = ⟨inset.x, inset.y, f (start + 4) inset.source⟩ ::
      place.placeInsets sizeOf f (start + 4 + sizeOf inset.source) #[] rest := by
  simp only [place.placeInsets]
  rw [placeInsets_eq]
  rfl

theorem map_combine (g : σ → τ) (w h : UInt16) (insets : List (Inset σ)) :
    (Instr.combine w h insets).map g = .combine w h (insets.map fun p => ⟨p.x, p.y, g p.source⟩) := by
  have insetsMap : ∀ start, place.placeInsets (fun _ => 0) (fun _ => g) start #[] insets =
      insets.map fun p => ⟨p.x, p.y, g p.source⟩ := by
    induction insets with
    | nil => intro start; rfl
    | cons inset rest ih => intro start; rw [placeInsets_cons, ih, List.map_cons]
  simp only [map, place, insetsMap]

theorem sources_map (g : σ → τ) (i : Instr σ) : (i.map g).sources = i.sources.map g := by
  cases i with
  | combine w h insets => simp only [map_combine, sources, List.map_map]; rfl
  | _ => rfl

theorem map_map (g : σ → τ) (g' : τ → υ) (i : Instr σ) : (i.map g).map g' = i.map (g' ∘ g) := by
  cases i with
  | combine w h insets => simp only [map_combine, List.map_map]; rfl
  | _ => rfl

theorem map_congr {g g' : σ → τ} {i : Instr σ} (same : ∀ s ∈ i.sources, g s = g' s) : i.map g = i.map g' := by
  cases i with
  | combine w h insets =>
    simp only [map_combine]
    congr 1
    apply List.map_congr_left
    intro inset member
    rw [same _ (List.mem_map_of_mem member)]
  | _ => simp_all [map, place, sources]

theorem placeInsets_map (sizeOf : τ → Nat) (f : Nat → τ → υ) (g : σ → τ) (insets : List (Inset σ)) (start : Nat) :
    place.placeInsets sizeOf f start #[] (insets.map fun p => (⟨p.x, p.y, g p.source⟩ : Inset τ)) =
      place.placeInsets (sizeOf ∘ g) (fun start s => f start (g s)) start #[] insets := by
  induction insets generalizing start with
  | nil => rfl
  | cons inset rest ih => simp only [List.map_cons, placeInsets_cons, ih, Function.comp_apply]

theorem place_map (sizeOf : τ → Nat) (f : Nat → τ → υ) (g : σ → τ) (i : Instr σ) (start : Nat) :
    (i.map g).place sizeOf f start = i.place (sizeOf ∘ g) (fun start s => f start (g s)) start := by
  cases i with
  | combine w h insets => simp only [map_combine, place, placeInsets_map]
  | _ => rfl

/-- A placed instruction with each operand replaced once more. -/
theorem map_place_eq (sizeOf : σ → Nat) (f : Nat → σ → τ) (g : τ → υ) (i : Instr σ) (start : Nat) :
    (i.place sizeOf f start).map g = i.place sizeOf (fun start s => g (f start s)) start := by
  cases i with
  | combine w h insets =>
    have insetsMap : ∀ start, (place.placeInsets sizeOf f start #[] insets).map
          (fun p => (⟨p.x, p.y, g p.source⟩ : Inset υ)) =
        place.placeInsets sizeOf (fun start s => g (f start s)) start #[] insets := by
      induction insets with
      | nil => exact fun _ => rfl
      | cons inset rest ih =>
        intro start
        rw [placeInsets_cons, placeInsets_cons, List.map_cons, ih]
    simp only [place, map_combine, insetsMap]
  | _ => rfl

theorem place_place {sizeOf : σ → Nat} {sizeAfter : τ → Nat} {f : Nat → σ → τ}
    (sized : ∀ start s, sizeAfter (f start s) = sizeOf s) (g : Nat → τ → υ) (i : Instr σ) (start : Nat) :
    (i.place sizeOf f start).place sizeAfter g start = i.place sizeOf (fun start s => g start (f start s)) start := by
  cases i with
  | combine w h insets =>
    have insetsPlace : ∀ start, place.placeInsets sizeAfter g start #[] (place.placeInsets sizeOf f start #[] insets) =
        place.placeInsets sizeOf (fun start s => g start (f start s)) start #[] insets := by
      induction insets with
      | nil => exact fun _ => rfl
      | cons inset rest ih =>
        intro start
        rw [placeInsets_cons, placeInsets_cons, placeInsets_cons, sized, ih]
    simp only [place, insetsPlace]
  | _ => rfl

theorem place_self (sizeOf : σ → Nat) (i : Instr σ) (start : Nat) : i.place sizeOf (fun _ s => s) start = i := by
  cases i with
  | combine w h insets =>
    have same : ∀ start, place.placeInsets sizeOf (fun _ s => s) start #[] insets = insets := by
      induction insets with
      | nil => exact fun _ => rfl
      | cons inset rest ih =>
        intro start
        rw [placeInsets_cons, ih]
    rw [place, same]
  | _ => rfl

theorem placeInsets_length (sizeOf : σ → Nat) (f : Nat → σ → τ) (insets : List (Inset σ)) :
    ∀ start, (place.placeInsets sizeOf f start #[] insets).length = insets.length := by
  induction insets with
  | nil => exact fun _ => rfl
  | cons inset rest ih =>
    intro start
    rw [placeInsets_cons, List.length_cons, List.length_cons, ih]

theorem encode_place (sizeOf : σ → Nat) (f : Nat → σ → Origin) (i : Instr σ) (start : Nat) :
    (i.place sizeOf f start).encode = Stretch.spell sizeOf (fun start s => (f start s).encode) start i.parts := by
  cases i with
  | combine w h insets =>
    have insetsEncode : ∀ start, (place.placeInsets sizeOf f start #[] insets).flatMap
          (fun p => word16 p.x ++ word16 p.y ++ p.source.encode) =
        Stretch.spell sizeOf (fun start s => (f start s).encode) start (insets.flatMap Inset.parts) := by
      induction insets with
      | nil => exact fun _ => rfl
      | cons inset rest ih =>
        intro start
        rw [placeInsets_cons, List.flatMap_cons, ih]
        simp [Inset.parts, Stretch.spell]
    simp only [place, encode, insetsEncode, parts, placeInsets_length, Stretch.spell]
    simp [Bytes.littleEndian_length]
  | _ => simp [place, encode, parts, Stretch.spell]

theorem encode_map (encodeSource : σ → Origin) (i : Instr σ) :
    (i.map encodeSource).encode = i.parts.flatMap (Stretch.encode fun s => (encodeSource s).encode) := by
  cases i with
  | combine w h insets =>
    have insetsEncode : (insets.map fun p => (⟨p.x, p.y, encodeSource p.source⟩ : Inset Origin)).flatMap
          (fun p => word16 p.x ++ word16 p.y ++ p.source.encode) =
        (insets.flatMap Inset.parts).flatMap (Stretch.encode fun s => (encodeSource s).encode) := by
      induction insets with
      | nil => rfl
      | cons inset rest ih =>
        rw [List.map_cons, List.flatMap_cons, ih]
        simp [Inset.parts, Stretch.encode]
    simp only [map_combine, encode, insetsEncode, parts, List.length_map, List.flatMap_cons, Stretch.encode]
  | _ => simp [map, place, encode, parts, Stretch.encode]

theorem sources_place (sizeOf : σ → Nat) (f : Nat → σ → τ) (i : Instr σ) (start : Nat) :
    (i.place sizeOf f start).sources = Stretch.place sizeOf f start i.parts := by
  cases i with
  | combine w h insets =>
    have insetsPlace : ∀ start, (place.placeInsets sizeOf f start #[] insets).map (·.source) =
        Stretch.place sizeOf f start (insets.flatMap Inset.parts) := by
      induction insets with
      | nil => intro start; rfl
      | cons inset rest ih =>
        intro start
        rw [placeInsets_cons, List.map_cons, ih]
        simp [Inset.parts, Stretch.place]
    simp only [place, sources, parts, Stretch.place, insetsPlace]
    simp [Bytes.littleEndian_length]
  | _ => simp [place, sources, parts, Stretch.place]

theorem sources_eq_filterMap (i : Instr σ) : i.sources = i.parts.filterMap Stretch.operand? := by
  cases i with
  | combine w h insets =>
    simp only [sources, parts, List.filterMap_cons, Stretch.operand?]
    induction insets with
    | nil => rfl
    | cons inset rest ih => simp [Inset.parts, Stretch.operand?, List.filterMap_cons, ih]
  | _ => rfl

theorem length_eq_sum (sizeOf : σ → Nat) (i : Instr σ) : i.length sizeOf = (i.parts.map (Stretch.size sizeOf)).sum := by
  cases i with
  | combine w h insets =>
    have insetsSize : ∀ total, insets.foldl (fun total p => total + (4 + sizeOf p.source)) total =
        total + ((insets.flatMap Inset.parts).map (Stretch.size sizeOf)).sum := by
      induction insets with
      | nil => intro total; rfl
      | cons inset rest ih =>
        intro total
        rw [List.foldl_cons, ih]
        simp [Inset.parts, Stretch.size]
        omega
    simp only [length, parts, insetsSize]
    simp [Stretch.size, Bytes.littleEndian_length]
  | _ => simp [length, parts, Stretch.size] <;> omega

/-- An encoded instruction is as long as its length says. -/
theorem encode_map_length {sizeOf : σ → Nat} {encodeSource : σ → Origin}
    (sized : ∀ s, (encodeSource s).encode.length = sizeOf s) (i : Instr σ) :
    (i.map encodeSource).encode.length = i.length sizeOf := by
  rw [encode_map, Stretch.encode_length sized, length_eq_sum]

end Instr

/-- A list with each item replaced in order, a value passed from one to the next. -/
def threadAll {σ τ ρ : Type} (f : σ → ρ → τ × ρ) : List σ → ρ → List τ × ρ
  | [], r => ([], r)
  | s :: rest, r =>
    let (t, r) := f s r
    let (ts, r) := threadAll f rest r
    (t :: ts, r)

namespace Instr

variable {σ τ ρ : Type}

theorem threadInsets_eq (f : σ → ρ → τ × ρ) (insets : List (Inset σ)) (r : ρ) (done : Array (Inset τ)) :
    thread.threadInsets f done insets r =
      (done.toList ++ (thread.threadInsets f #[] insets r).1, (thread.threadInsets f #[] insets r).2) := by
  induction insets generalizing r done with
  | nil => simp [thread.threadInsets]
  | cons inset rest ih =>
    simp only [thread.threadInsets]
    rw [ih _ (done.push _), ih _ (Array.push #[] _)]
    simp

theorem threadInsets_cons (f : σ → ρ → τ × ρ) (inset : Inset σ) (rest : List (Inset σ)) (r : ρ) :
    thread.threadInsets f #[] (inset :: rest) r =
      (⟨inset.x, inset.y, (f inset.source r).1⟩ :: (thread.threadInsets f #[] rest (f inset.source r).2).1,
        (thread.threadInsets f #[] rest (f inset.source r).2).2) := by
  simp only [thread.threadInsets]
  rw [threadInsets_eq]
  rfl

theorem threadInsets_spec (f : σ → ρ → τ × ρ) (insets : List (Inset σ)) (r : ρ) :
    let result := thread.threadInsets f #[] insets r
    let refs := threadAll f (insets.map (·.source)) r
    result.1.map (·.source) = refs.1 ∧ result.2 = refs.2 ∧
      ∀ g : τ → σ, refs.1.map g = insets.map (·.source) →
        result.1.map (fun p => (⟨p.x, p.y, g p.source⟩ : Inset σ)) = insets := by
  induction insets generalizing r with
  | nil => simp [thread.threadInsets, threadAll]
  | cons inset rest ih =>
    obtain ⟨sources, state, back⟩ := ih (f inset.source r).2
    simp only [threadInsets_cons, List.map_cons, threadAll, sources, state, true_and]
    intro g same
    obtain ⟨first, others⟩ := List.cons.inj same
    rw [first, back g others]

/-- Threading an instruction is threading its operands, in their order. -/
theorem thread_spec (f : σ → ρ → τ × ρ) (i : Instr σ) (r : ρ) :
    (i.thread f r).1.sources = (threadAll f i.sources r).1 ∧ (i.thread f r).2 = (threadAll f i.sources r).2 ∧
      ∀ g : τ → σ, (threadAll f i.sources r).1.map g = i.sources → (i.thread f r).1.map g = i := by
  cases i with
  | combine w h insets =>
    obtain ⟨sources, state, back⟩ := threadInsets_spec f insets r
    refine ⟨sources, state, ?_⟩
    intro g same
    simp only [thread, map_combine, back g same]
  | _ => simp +contextual [thread, sources, threadAll, map, place]

end Instr

end TextureLoom.Bytecode
