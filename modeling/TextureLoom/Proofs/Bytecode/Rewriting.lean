import TextureLoom.Proofs.Bytecode.Recoding
import TextureLoom.Proofs.Repeats

set_option autoImplicit false

namespace TextureLoom.Bytecode

open Encoding (word24)
open Instr (encode)

/-- The program has these bytes at an offset. -/
def Holds (code : Array UInt8) (start : Nat) (bytes : List UInt8) : Prop :=
  ∀ k < bytes.length, code[start + k]? = bytes[k]?

theorem limit24_eq : limit24 = 256 ^ 3 := by decide

section

variable {code : Array UInt8} {start : Nat}

theorem holds_nil (code : Array UInt8) (start : Nat) : Holds code start [] := fun _ bound => nomatch bound

theorem holds_append (first : List UInt8) {second : List UInt8} :
    Holds code start (first ++ second) ↔ Holds code start first ∧ Holds code (start + first.length) second := by
  constructor
  · intro holds
    constructor
    · intro k bound
      rw [holds k (by rw [List.length_append]; omega), List.getElem?_append_left bound]
    · intro k bound
      rw [Nat.add_assoc, holds _ (by rw [List.length_append]; omega), List.getElem?_append_right (by omega),
        Nat.add_sub_cancel_left]
  · rintro ⟨front, behind⟩ k bound
    rw [List.length_append] at bound
    by_cases inFront : k < first.length
    · rw [front k inFront, List.getElem?_append_left inFront]
    · obtain ⟨j, rfl⟩ := Nat.exists_eq_add_of_le (Nat.not_lt.mp inFront)
      rw [← Nat.add_assoc, behind j (by omega), List.getElem?_append_right (by omega), Nat.add_sub_cancel_left]

theorem holds_of_toList {before bytes after : List UInt8} (split : code.toList = before ++ (bytes ++ after)) :
    Holds code before.length bytes := by
  intro k bound
  rw [← Array.getElem?_toList, split, List.getElem?_append_right (by omega), Nat.add_sub_cancel_left,
    List.getElem?_append_left bound]

/-- Where a program has bytes it can be taken apart. -/
theorem Holds.exists_split {bytes : List UInt8} (holds : Holds code start bytes) (some : bytes ≠ []) :
    ∃ before after, before.length = start ∧ code.toList = before ++ (bytes ++ after) := by
  have last := holds (bytes.length - 1) (by have := List.length_pos_iff.mpr some; omega)
  rw [List.getElem?_eq_getElem (by have := List.length_pos_iff.mpr some; omega)] at last
  obtain ⟨inside, -⟩ := Array.getElem?_eq_some_iff.mp last
  refine ⟨code.toList.take start, code.toList.drop (start + bytes.length), ?_, ?_⟩
  · rw [List.length_take, Array.length_toList]
    omega
  · have middle : (code.toList.drop start).take bytes.length = bytes := by
      apply List.ext_getElem?
      intro k
      by_cases bound : k < bytes.length
      · rw [List.getElem?_take_of_lt bound, List.getElem?_drop, Array.getElem?_toList, holds k bound]
      · rw [List.getElem?_eq_none (by rw [List.length_take]; omega), List.getElem?_eq_none (by omega)]
    have back := List.take_append_drop bytes.length (code.toList.drop start)
    rw [middle, List.drop_drop] at back
    rw [back, List.take_append_drop]

theorem Holds.read24_eq {field id : Nat} (holds : Holds code field (word24 id)) (small : id < limit24) :
    Bytes.read24 code field = id := by
  have first := holds 0 (by simp)
  have second := holds 1 (by simp)
  have third := holds 2 (by simp)
  rw [limit24_eq] at small
  rw [← Bytes.ofLittleEndian_littleEndian 3 small, Bytes.read24]
  simp only [Nat.add_zero] at first
  simp only [Array.getD_eq_getD_getElem?, first, second, third, word24, Bytes.littleEndian, List.getElem?_cons_zero,
    List.getElem?_cons_succ, Option.getD_some]

theorem read24_lt (code : Array UInt8) (field : Nat) : Bytes.read24 code field < limit24 := by
  rw [limit24_eq, Bytes.read24]
  exact Bytes.ofLittleEndian_lt [_, _, _]

theorem holds_word24 {field : Nat} (inside : field + 3 ≤ code.size) :
    Holds code field (word24 (Bytes.read24 code field)) := by
  have same : word24 (Bytes.read24 code field) = [code[field], code[field + 1], code[field + 2]] := by
    rw [word24, Bytes.read24]
    refine Eq.trans (Bytes.littleEndian_ofLittleEndian [_, _, _]) ?_
    simp only [Array.getD_eq_getD_getElem?, Array.getElem?_eq_getElem (show field < code.size by omega),
      Array.getElem?_eq_getElem (show field + 1 < code.size by omega),
      Array.getElem?_eq_getElem (show field + 2 < code.size by omega), Option.getD_some]
  intro k bound
  rw [same] at bound ⊢
  match k, bound with
  | 0, _ => exact Array.getElem?_eq_getElem _
  | 1, _ => exact Array.getElem?_eq_getElem _
  | 2, _ => exact Array.getElem?_eq_getElem _

end

/-- Where a block's instructions and its end are, the block is read. -/
theorem Block.of_holds {code : Array UInt8} {start stop : Nat} {instrs : List (Instr Origin)}
    (fits : ∀ i ∈ instrs, i.Fits) (holds : Holds code start (instrs.flatMap encode ++ [finishCode]))
    (stops : start + (instrs.flatMap encode).length < stop) :
    Block.of code start stop = ⟨locate start instrs, .ok (start + (instrs.flatMap encode).length)⟩ := by
  obtain ⟨before, after, rfl, split⟩ := holds.exists_split (by simp)
  rw [List.append_assoc, List.singleton_append] at split
  exact Block.of_encode fits split stops

/-- The operand with a texture's id replaced. -/
def Origin.renumber (number : Nat → Nat) : Origin → Origin
  | .texture id => .texture (number id)
  | .block offset length => .block offset length

/-- The operand with a texture's id replaced, `number` being given the offset of the id and the id. -/
def Operand.renumber (number : Nat → Nat → Nat) (o : Operand) : Operand := ⟨o.field, o.origin.renumber (number o.field)⟩

def Located.renumber (number : Nat → Nat → Nat) (l : Located) : Located :=
  ⟨l.position, l.instr.map (Operand.renumber number)⟩

@[simp] theorem Located.position_renumber (number : Nat → Nat → Nat) (l : Located) :
    (l.renumber number).position = l.position := rfl

def Block.renumber (number : Nat → Nat → Nat) (b : Block) : Block := ⟨b.instrs.map (Located.renumber number), b.finish⟩

/-- Where an instruction has the ids of its textures. -/
def Instr.fields (i : Instr Operand) : List Nat := (i.sources.filterMap Operand.texture?).map (·.1)

/-- Bytes that an operand was read from. -/
def Operand.size (o : Operand) : Nat := o.origin.size

/-- The offset behind an instruction. -/
def Located.stop (l : Located) : Nat := l.position + l.instr.length Operand.size

@[simp] theorem Origin.size_renumber (number : Nat → Nat) (o : Origin) : (o.renumber number).size = o.size := by
  cases o <;> rfl

theorem Instr.encode_eq_spell (o : Instr Origin) (start : Nat) :
    o.encode = Stretch.spell Origin.size (fun _ s => s.encode) start o.parts := by
  rw [← encode_place, place_self]

namespace Stretch

/-- Where some stretches have the ids of textures. -/
def fields (start : Nat) (parts : List (Stretch Origin)) : List Nat :=
  ((place Origin.size Operand.at start parts).filterMap Operand.texture?).map (·.1)

theorem spell_length {σ : Type} {sizeOf : σ → Nat} {f : Nat → σ → List UInt8}
    (sized : ∀ start s, (f start s).length = sizeOf s) (parts : List (Stretch σ)) :
    ∀ start, (spell sizeOf f start parts).length = (parts.map (size sizeOf)).sum := by
  induction parts with
  | nil => exact fun _ => rfl
  | cons part rest ih =>
    intro start
    cases part <;> simp [spell, size, ih, sized]

theorem lt_of_mem_fields {parts : List (Stretch Origin)} {field : Nat} :
    ∀ start : Nat, field ∈ fields start parts → start < field := by
  induction parts with
  | nil => exact fun _ member => absurd member List.not_mem_nil
  | cons part rest ih =>
    intro start member
    cases part with
    | bytes run => exact Nat.lt_of_le_of_lt (Nat.le_add_right _ _) (ih (start + run.length) member)
    | operand source =>
      cases source with
      | texture id =>
        rcases List.mem_cons.mp member with rfl | later
        · exact Nat.lt_succ_self start
        · exact Nat.lt_of_le_of_lt (Nat.le_add_right _ _) (ih (start + 4) later)
      | block offset length => exact Nat.lt_of_le_of_lt (Nat.le_add_right _ _) (ih (start + 7) member)

/-- What is read as a texture's id is the number written there. -/
theorem read24_of_mem {code : Array UInt8} {parts : List (Stretch Origin)} {field id : Nat} :
    ∀ {start : Nat}, Holds code start (spell Origin.size (fun _ s => s.encode) start parts) →
      (∀ o ∈ parts.filterMap operand?, o.Fits) →
      (field, id) ∈ (place Origin.size Operand.at start parts).filterMap Operand.texture? →
        field + 3 ≤ start + (parts.map (size Origin.size)).sum ∧ Bytes.read24 code field = id := by
  induction parts with
  | nil => exact fun _ _ member => absurd member List.not_mem_nil
  | cons part rest ih =>
    intro start holds fits member
    cases part with
    | bytes run =>
      obtain ⟨bound, same⟩ := ih ((holds_append _).mp holds).2 fits member
      refine ⟨?_, same⟩
      rw [List.map_cons, List.sum_cons, size]
      omega
    | operand source =>
      obtain ⟨front, behind⟩ := (holds_append _).mp holds
      rw [Origin.encode_length] at behind
      rw [List.map_cons, List.sum_cons, size]
      have later (member : (field, id) ∈ (place Origin.size Operand.at (start + source.size) rest).filterMap
          Operand.texture?) := ih behind (fun o member => fits o (List.mem_cons_of_mem _ member)) member
      cases source with
      | texture own =>
        rcases List.mem_cons.mp member with same | member
        · cases same
          have small : id < limit24 := fits (.texture id) List.mem_cons_self
          refine ⟨?_, Holds.read24_eq ((holds_append [0]).mp front).2 small⟩
          simp only [Operand.at, Origin.size]
          omega
        · obtain ⟨bound, same⟩ := later member
          exact ⟨by omega, same⟩
      | block offset length =>
        obtain ⟨bound, same⟩ := later member
        exact ⟨by omega, same⟩

/-- Bytes that stay the same outside of the ids spell the same stretches, but for the ids. -/
theorem holds_renumber {code code' : Array UInt8} (sameSize : code'.size = code.size) {parts : List (Stretch Origin)} :
    ∀ {start : Nat}, Holds code start (spell Origin.size (fun _ s => s.encode) start parts) →
      (∀ k, start ≤ k → k < start + (parts.map (size Origin.size)).sum →
        (∀ field ∈ fields start parts, k < field ∨ field + 3 ≤ k) → code'[k]? = code[k]?) →
      Holds code' start (spell Origin.size
        (fun start s => (s.renumber fun _ => Bytes.read24 code' (start + 1)).encode) start parts) := by
  induction parts with
  | nil => exact fun _ _ => holds_nil _ _
  | cons part rest ih =>
    intro start holds keeps
    rw [List.map_cons, List.sum_cons] at keeps
    cases part with
    | bytes run =>
      obtain ⟨front, behind⟩ := (holds_append _).mp holds
      refine (holds_append _).mpr
        ⟨?_, ih behind fun k above below outside => keeps k (by omega) (by rw [size]; omega) outside⟩
      intro k bound
      rw [← front k bound]
      refine keeps _ (by omega) (by rw [size]; omega) fun field member => .inl ?_
      have behindRun := lt_of_mem_fields (start + run.length) member
      omega
    | operand source =>
      cases source with
      | texture id =>
        obtain ⟨front, behind⟩ := (holds_append ([0] ++ word24 id)).mp holds
        obtain ⟨kind, number⟩ := (holds_append _).mp front
        have length : ∀ id, ([0] ++ word24 id).length = 4 := fun _ => rfl
        rw [length] at behind
        have inside : start + 1 + 3 ≤ code.size := by
          obtain ⟨bound, -⟩ := Array.getElem?_eq_some_iff.mp (number 2 (by simp))
          rw [List.length_singleton] at bound
          omega
        refine (holds_append ([0] ++ word24 (Bytes.read24 code' (start + 1)))).mpr
          ⟨(holds_append _).mpr ⟨?_, holds_word24 (by rw [sameSize]; exact inside)⟩, ?_⟩
        · intro k bound
          rw [← kind k bound]
          rw [List.length_singleton] at bound
          refine keeps _ (by omega) (by rw [size, Origin.size]; omega) fun field member => .inl ?_
          rcases List.mem_cons.mp member with rfl | later
          · exact Nat.add_lt_add_left bound start
          · have behindOperand := lt_of_mem_fields (start + 4) later
            omega
        · rw [length]
          refine ih behind fun k above below outside => keeps k (by omega) (by rw [size, Origin.size]; omega) ?_
          intro field member
          rcases List.mem_cons.mp member with rfl | later
          · exact .inr above
          · exact outside field later
      | block offset length =>
        obtain ⟨front, behind⟩ := (holds_append (Origin.block offset length).encode).mp holds
        rw [Origin.encode_length] at behind
        refine (holds_append (Origin.block offset length).encode).mpr ⟨?_, ?_⟩
        · intro k bound
          rw [← front k bound]
          rw [Origin.encode_length] at bound
          refine keeps _ (by omega) (by rw [size]; omega) fun field member => .inl ?_
          have behindOperand := lt_of_mem_fields (start + 7) member
          rw [Origin.size] at bound
          omega
        · rw [Origin.encode_length]
          exact ih behind fun k above below outside => keeps k (by omega) (by rw [size]; omega) outside

end Stretch

theorem Instr.fields_place (o : Instr Origin) (start : Nat) :
    (o.place Origin.size Operand.at start).fields = Stretch.fields start o.parts := by
  rw [fields, sources_place, Stretch.fields]

theorem Instr.encode_length (o : Instr Origin) : o.encode.length = (o.parts.map (Stretch.size Origin.size)).sum := by
  rw [o.encode_eq_spell 0, Stretch.spell_length fun _ s => Origin.encode_length s]

theorem Instr.length_place {σ τ : Type} {sizeOf sizeBefore : σ → Nat} {sizeAfter : τ → Nat} {f : Nat → σ → τ}
    (sized : ∀ start s, sizeAfter (f start s) = sizeBefore s) (i : Instr σ) (start : Nat) :
    (i.place sizeOf f start).length sizeAfter = i.length sizeBefore := by
  cases i with
  | combine w h insets =>
    have total : ∀ start size, (place.placeInsets sizeOf f start #[] insets).foldl
          (fun total p => total + (4 + sizeAfter p.source)) size =
        insets.foldl (fun total p => total + (4 + sizeBefore p.source)) size := by
      induction insets with
      | nil => exact fun _ _ => rfl
      | cons inset rest ih =>
        intro start size
        rw [placeInsets_cons, List.foldl_cons, List.foldl_cons, ih, sized]
    exact total _ _
  | _ => simp [place, length, sized]

theorem Located.stop_place (o : Instr Origin) (start : Nat) :
    Located.stop ⟨start, o.place Origin.size Operand.at start⟩ = start + o.encode.length := by
  have sized : ∀ start s, Operand.size (Operand.at start s) = s.size := fun _ _ => rfl
  rw [stop, Instr.length_place sized, Instr.encode_length, Instr.length_eq_sum]

/-- An instruction stands in a program where it was read. -/
structure Located.Reads (code : Array UInt8) (l : Located) (o : Instr Origin) : Prop where
  fits : o.Fits
  instr : l.instr = o.place Origin.size Operand.at l.position
  holds : Holds code l.position o.encode

namespace Located.Reads

variable {code : Array UInt8} {l : Located} {o : Instr Origin}

theorem stop_eq (reads : l.Reads code o) : l.stop = l.position + o.encode.length := by
  rw [← Located.stop_place, ← reads.instr]

/-- The ids of an instruction are written in it. -/
theorem read24_of_mem (reads : l.Reads code o) {field id : Nat}
    (member : (field, id) ∈ l.instr.sources.filterMap Operand.texture?) :
    l.position < field ∧ field + 3 ≤ l.stop ∧ Bytes.read24 code field = id := by
  have isField : field ∈ l.instr.fields := List.mem_map_of_mem member
  rw [reads.instr, Instr.fields_place] at isField
  rw [reads.instr, Instr.sources_place] at member
  have holds := reads.holds
  rw [o.encode_eq_spell l.position] at holds
  have fits := reads.fits.sources
  rw [Instr.sources_eq_filterMap] at fits
  obtain ⟨bound, same⟩ := Stretch.read24_of_mem holds fits member
  rw [reads.stop_eq, Instr.encode_length]
  exact ⟨Stretch.lt_of_mem_fields _ isField, bound, same⟩

theorem field_inside (reads : l.Reads code o) {field : Nat} (isField : field ∈ l.instr.fields) :
    l.position < field ∧ field + 3 ≤ l.stop := by
  obtain ⟨⟨_, id⟩, isTexture, rfl⟩ := List.mem_map.mp isField
  obtain ⟨above, below, -⟩ := reads.read24_of_mem isTexture
  exact ⟨above, below⟩

end Located.Reads

theorem le_position_of_mem_locate {l : Located} {instrs : List (Instr Origin)} :
    ∀ {start : Nat}, l ∈ locate start instrs → start ≤ l.position := by
  induction instrs with
  | nil => exact fun member => absurd member List.not_mem_nil
  | cons o rest ih =>
    intro start member
    rcases List.mem_cons.mp member with rfl | later
    · exact Nat.le_refl start
    · exact Nat.le_trans (Nat.le_add_right _ _) (ih later)

/-- Instructions that follow each other do not overlap. -/
theorem spans_locate (instrs : List (Instr Origin)) :
    ∀ start, (locate start instrs).Pairwise fun first second => first.stop ≤ second.position := by
  induction instrs with
  | nil => exact fun _ => .nil
  | cons o rest ih =>
    intro start
    refine .cons (fun l later => ?_) (ih _)
    rw [Located.stop_place]
    exact le_position_of_mem_locate later

/-- Instructions that a program has one behind the other are each where they are read. -/
theorem exists_of_mem_locate {code : Array UInt8} {l : Located} {instrs : List (Instr Origin)} :
    ∀ {start : Nat}, (∀ i ∈ instrs, i.Fits) → Holds code start (instrs.flatMap encode) → l ∈ locate start instrs →
      (∃ o, l.Reads code o) ∧ start ≤ l.position ∧ l.stop ≤ start + (instrs.flatMap encode).length := by
  induction instrs with
  | nil => exact fun _ _ member => absurd member List.not_mem_nil
  | cons o rest ih =>
    intro start fits holds member
    obtain ⟨front, behind⟩ := (holds_append _).mp holds
    rw [List.flatMap_cons, List.length_append]
    rcases List.mem_cons.mp member with rfl | later
    · have reads : Located.Reads code ⟨start, o.place Origin.size Operand.at start⟩ o :=
        ⟨fits o List.mem_cons_self, rfl, front⟩
      refine ⟨⟨o, reads⟩, Nat.le_refl _, ?_⟩
      rw [reads.stop_eq]
      exact Nat.add_le_add_left (Nat.le_add_right _ _) start
    · obtain ⟨reads, begins, ends⟩ := ih (fun i inRest => fits i (List.mem_cons_of_mem _ inRest)) behind later
      exact ⟨reads, by omega, by omega⟩

/-- The instructions of a block that can be decoded stand in the program, in front of the block's end. -/
theorem Block.exists_reads {code : Array UInt8} {start stop finish : Nat}
    (ends : (Block.of code start stop).finish = .ok finish) {l : Located}
    (member : l ∈ (Block.of code start stop).instrs) :
    (∃ o, l.Reads code o) ∧ start ≤ l.position ∧ l.stop ≤ finish := by
  obtain ⟨before, instrs, after, rfl, fits, split, rfl, -, same⟩ := Block.exists_of_finish ends
  rw [same] at member
  exact exists_of_mem_locate fits (holds_of_toList split) member

/-- Only three-byte fields at these offsets differ. -/
structure Rewrites (fields : List Nat) (code code' : Array UInt8) : Prop where
  size : code'.size = code.size
  outside : ∀ k, (∀ field ∈ fields, k < field ∨ field + 3 ≤ k) → code'[k]? = code[k]?

/-- Fields that meet an instruction are fields of its textures. -/
def Located.Clear (fields : List Nat) (l : Located) : Prop :=
  ∀ field ∈ fields, field ∈ l.instr.fields ∨ l.stop ≤ field ∨ field + 3 ≤ l.position

/-- Fields that meet the instructions and the end of a block are fields of its textures. -/
structure Block.Clear (fields : List Nat) (b : Block) : Prop where
  instrs : ∀ l ∈ b.instrs, l.Clear fields
  finish : ∀ position, b.finish = .ok position → ∀ field ∈ fields, position < field ∨ field + 3 ≤ position

/-- A block is clear of its own ids, and of those that are elsewhere. -/
theorem Block.clear_of_finish {code : Array UInt8} {start stop finish : Nat} {fields : List Nat}
    (ends : (Block.of code start stop).finish = .ok finish)
    (apart : ∀ field ∈ fields, (∃ l ∈ (Block.of code start stop).instrs, field ∈ l.instr.fields) ∨
      finish < field ∨ field + 3 ≤ start) : (Block.of code start stop).Clear fields where
  instrs := by
    intro l member field isField
    obtain ⟨-, begins, stops⟩ := Block.exists_reads ends member
    rcases apart field isField with ⟨other, otherMember, isOwn⟩ | behind | before
    · obtain ⟨⟨o, reads⟩, -, -⟩ := Block.exists_reads ends otherMember
      obtain ⟨above, below⟩ := reads.field_inside isOwn
      obtain ⟨front, instrs, _, rfl, _, _, _, _, same⟩ := Block.exists_of_finish ends
      rw [same] at member otherMember
      rcases eq_or_of_pairwise (spans_locate instrs front.length) member otherMember with rfl | behind | before
      · exact .inl isOwn
      · exact .inr (.inl (by omega))
      · exact .inr (.inr (by omega))
    · exact .inr (.inl (by omega))
    · exact .inr (.inr (by omega))
  finish := by
    intro position same field isField
    cases ends.symm.trans same
    rcases apart field isField with ⟨l, member, isOwn⟩ | behind | before
    · obtain ⟨⟨o, reads⟩, -, stops⟩ := Block.exists_reads ends member
      exact .inr (Nat.le_trans (reads.field_inside isOwn).2 stops)
    · exact .inl behind
    · obtain ⟨_, _, _, rfl, _, _, rfl, _, _⟩ := Block.exists_of_finish ends
      exact .inr (by omega)

theorem Stretch.exists_of_mem_place {σ τ : Type} {sizeOf : σ → Nat} {f : Nat → σ → τ} {parts : List (Stretch σ)}
    {t : τ} :
    ∀ {start : Nat}, t ∈ place sizeOf f start parts → ∃ offset, ∃ s ∈ parts.filterMap operand?, f offset s = t := by
  induction parts with
  | nil => exact fun member => absurd member List.not_mem_nil
  | cons part rest ih =>
    intro start member
    cases part with
    | bytes run => exact ih member
    | operand source =>
      rcases List.mem_cons.mp member with rfl | later
      · exact ⟨start, source, List.mem_cons_self, rfl⟩
      · obtain ⟨offset, s, isOperand, same⟩ := ih later
        exact ⟨offset, s, List.mem_cons_of_mem _ isOperand, same⟩

theorem Stretch.length_place {σ τ : Type} (sizeOf : σ → Nat) (f : Nat → σ → τ) (parts : List (Stretch σ)) :
    ∀ start, (place sizeOf f start parts).length = (parts.filterMap operand?).length := by
  induction parts with
  | nil => exact fun _ => rfl
  | cons part rest ih =>
    intro start
    cases part with
    | bytes run => exact ih _
    | operand source => exact congrArg (· + 1) (ih _)

section

variable {code code' : Array UInt8} {fields : List Nat}

/-- The instruction that is read where another was once the ids in it have been written over. -/
theorem Located.Reads.exists_rewritten (rewrites : Rewrites fields code code') {l : Located} {o : Instr Origin}
    (reads : l.Reads code o) (clear : l.Clear fields) :
    ∃ o', (l.renumber fun field _ => Bytes.read24 code' field).Reads code' o' ∧ o'.encode.length = o.encode.length := by
  have sized : ∀ (start : Nat) (s : Origin), (s.renumber fun _ => Bytes.read24 code' (start + 1)).size = s.size :=
    fun _ s => Origin.size_renumber _ s
  refine ⟨o.place Origin.size (fun start s => s.renumber fun _ => Bytes.read24 code' (start + 1)) l.position,
    ⟨⟨?_, ?_⟩, ?_, ?_⟩, ?_⟩
  · intro placed member
    rw [Instr.sources_place] at member
    obtain ⟨start, s, isOperand, rfl⟩ := Stretch.exists_of_mem_place member
    rw [← Instr.sources_eq_filterMap] at isOperand
    cases s with
    | texture id => exact read24_lt code' (start + 1)
    | block offset length => exact reads.fits.sources _ isOperand
  · rw [Instr.sources_place, Stretch.length_place, ← Instr.sources_eq_filterMap]
    exact reads.fits.count
  · rw [renumber, reads.instr, Instr.map_place_eq, Instr.place_place sized]
    rfl
  · rw [Instr.encode_place]
    apply Stretch.holds_renumber rewrites.size
    · rw [← o.encode_eq_spell]
      exact reads.holds
    · intro k above below outside
      apply rewrites.outside
      intro field member
      rw [position_renumber] at above below outside
      rw [← Instr.encode_length, ← reads.stop_eq] at below
      rw [← Instr.fields_place, ← reads.instr] at outside
      rcases clear field member with own | behind | before
      · exact outside field own
      · exact .inl (by omega)
      · exact .inr (by omega)
  · rw [Instr.encode_place, Stretch.spell_length fun start s => (Origin.encode_length _).trans (sized start s),
      Instr.encode_length]

/-- A block whose ids have been written over is read as before, but for the ids. -/
theorem Block.of_rewritten (rewrites : Rewrites fields code code') {start stop finish : Nat}
    (ends : (Block.of code start stop).finish = .ok finish) (clear : (Block.of code start stop).Clear fields) :
    Block.of code' start stop = (Block.of code start stop).renumber fun field _ => Bytes.read24 code' field := by
  have each : ∀ (instrs : List (Instr Origin)) (start : Nat), (∀ i ∈ instrs, i.Fits) →
      Holds code start (instrs.flatMap encode) → (∀ l ∈ locate start instrs, l.Clear fields) →
        ∃ instrs' : List (Instr Origin), (∀ i ∈ instrs', i.Fits) ∧ Holds code' start (instrs'.flatMap encode) ∧
          (instrs'.flatMap encode).length = (instrs.flatMap encode).length ∧
          locate start instrs' =
            (locate start instrs).map (Located.renumber fun field _ => Bytes.read24 code' field) := by
    intro instrs
    induction instrs with
    | nil => exact fun start _ _ _ => ⟨[], by simp, holds_nil code' start, rfl, rfl⟩
    | cons o rest ih =>
      intro start fits holds clear
      obtain ⟨front, behind⟩ := (holds_append _).mp holds
      have reads : Located.Reads code ⟨start, o.place Origin.size Operand.at start⟩ o :=
        ⟨fits o List.mem_cons_self, rfl, front⟩
      obtain ⟨o', written, length⟩ := reads.exists_rewritten rewrites (clear _ List.mem_cons_self)
      obtain ⟨rest', fits', holds', restLength, located⟩ := ih (start + o.encode.length)
        (fun i member => fits i (List.mem_cons_of_mem _ member)) behind
        (fun l member => clear l (List.mem_cons_of_mem _ member))
      refine ⟨o' :: rest', ?_, ?_, ?_, ?_⟩
      · simpa using ⟨written.fits, fits'⟩
      · exact (holds_append _).mpr ⟨written.holds, length ▸ holds'⟩
      · rw [List.flatMap_cons, List.flatMap_cons, List.length_append, List.length_append, length, restLength]
      · rw [locate, locate, List.map_cons, length, located]
        congr 1
        exact congrArg (Located.mk start) written.instr.symm
  obtain ⟨before, instrs, after, rfl, fits, split, rfl, stops, same⟩ := Block.exists_of_finish ends
  have holds : Holds code before.length (instrs.flatMap encode ++ [finishCode]) :=
    holds_of_toList (split.trans (by rw [List.append_assoc]; rfl))
  obtain ⟨front, last⟩ := (holds_append _).mp holds
  rw [same] at clear
  obtain ⟨instrs', fits', holds', length, located⟩ := each instrs before.length fits front clear.instrs
  have ended : Holds code' (before.length + (instrs'.flatMap encode).length) [finishCode] := by
    intro k bound
    rw [length, ← last k bound]
    apply rewrites.outside
    intro field member
    rw [List.length_singleton, Nat.lt_one_iff] at bound
    rw [bound]
    exact clear.finish _ rfl field member
  rw [Block.of_holds fits' ((holds_append _).mpr ⟨holds', ended⟩) (by rw [length]; exact stops), same, renumber,
    located, length]

end

end TextureLoom.Bytecode
