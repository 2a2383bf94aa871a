import TextureLoom.Proofs.Bytecode.Sites

set_option autoImplicit false

namespace TextureLoom.Bytecode

/-- The offset behind the bytes that were looked at when the error was found. -/
def DecodeError.extent : DecodeError → Nat
  | .truncated position => position
  | .unknownOpcode _ position | .unknownSourceKind _ position => position + 1

namespace Reader

variable {α β : Type} {start : Nat} {w rest : Window}

/-- What `reader` gives at an offset is settled by the bytes that it looks at. If it succeeds, these are the bytes that
it takes, whatever follows them; if it fails, they end where the error says, and of the others only their number
counts. -/
structure Settles (reader : Reader α) (start : Nat) : Prop where
  success : ∀ {bytes a rest}, reader ⟨start, bytes⟩ = .ok (a, rest) →
    ∃ taken, Took ⟨start, bytes⟩ taken rest ∧ Takes reader start taken a
  failure : ∀ {bytes e}, reader ⟨start, bytes⟩ = .error e →
    ∃ seen unseen, Took ⟨start, bytes⟩ seen ⟨e.extent, unseen⟩ ∧
      ∀ others : List UInt8, others.length = unseen.length → reader ⟨start, seen ++ others⟩ = .error e

def Settled (reader : Reader α) : Prop := ∀ start, Settles reader start

theorem eq_error_of_bind {first : Reader α} {next : α → Reader β} {e : DecodeError}
    (failed : (first >>= next) w = .error e) :
    first w = .error e ∨ ∃ a middle, first w = .ok (a, middle) ∧ next a middle = .error e := by
  simp only [Bind.bind, StateT.bind, Except.bind] at failed
  split at failed
  · next given =>
    cases failed
    exact .inl given
  · next result given => exact .inr ⟨result.1, result.2, given, failed⟩

theorem bind_eq_error {first : Reader α} (next : α → Reader β) {e : DecodeError} (failed : first w = .error e) :
    (first >>= next) w = .error e := by
  simp only [Bind.bind, StateT.bind, Except.bind, failed]

theorem bind_eq_of_ok {first : Reader α} (next : α → Reader β) {a : α} (done : first w = .ok (a, rest)) :
    (first >>= next) w = next a rest := by
  simp only [Bind.bind, StateT.bind, Except.bind, done]

theorem settled_pure (a : α) : Settled (pure a) := by
  intro start
  constructor
  · intro bytes b rest done
    obtain ⟨rfl, rfl⟩ := eq_of_pure done
    exact ⟨[], .refl _, takes_pure b⟩
  · intro bytes e failed
    cases failed

/-- An error about the byte in front of the cursor. -/
theorem settles_fail {e : DecodeError} (here : e.extent = start) : Settles (fail e : Reader α) start := by
  constructor
  · intro bytes a rest done
    cases done
  · intro bytes e' failed
    cases failed
    exact ⟨[], bytes, ⟨rfl, here⟩, fun _ _ => rfl⟩

theorem Settles.bind {first : Reader α} {next : α → Reader β} (former : Settles first start)
    (latter : ∀ {bytes a rest}, first ⟨start, bytes⟩ = .ok (a, rest) → Settles (next a) rest.position) :
    Settles (first >>= next) start := by
  constructor
  · intro bytes b rest done
    obtain ⟨a, middle, firstDone, nextDone⟩ := exists_of_bind done
    obtain ⟨taken, took, takes⟩ := former.success firstDone
    obtain ⟨more, tookMore, takesMore⟩ := (latter firstDone).success nextDone
    rw [took.position] at takesMore
    exact ⟨taken ++ more, took.trans tookMore, takes.bind takesMore⟩
  · intro bytes e failed
    rcases eq_error_of_bind failed with firstFailed | ⟨a, middle, firstDone, nextFailed⟩
    · obtain ⟨seen, unseen, took, alike⟩ := former.failure firstFailed
      exact ⟨seen, unseen, took, fun others length => bind_eq_error next (alike others length)⟩
    · -- what the first reader took was looked at too
      obtain ⟨taken, took, takes⟩ := former.success firstDone
      obtain ⟨seen, unseen, tookMore, alike⟩ := (latter firstDone).failure nextFailed
      have position : middle.position = start + taken.length := took.position
      refine ⟨taken ++ seen, unseen, took.trans tookMore, fun others length => ?_⟩
      rw [List.append_assoc, bind_eq_of_ok next (takes (seen ++ others)), ← position]
      exact alike others length

theorem Settled.bind {first : Reader α} {next : α → Reader β} (former : Settled first)
    (latter : ∀ a, Settled (next a)) : Settled (first >>= next) :=
  fun start => (former start).bind fun _ => latter _ _

theorem Settled.map {reader : Reader α} (f : α → β) (settled : Settled reader) :
    Settled (do pure (f (← reader))) :=
  settled.bind fun a => settled_pure (f a)

theorem settles_position_bind {next : Nat → Reader β} (settles : Settles (next start) start) :
    Settles (position >>= next) start := ⟨settles.success, settles.failure⟩

theorem settled_take (count : Nat) : Settled (take count) := by
  intro start
  constructor
  · intro bytes a rest done
    unfold take at done
    dsimp only at done
    split at done
    · cases done
    · next enough =>
      cases done
      have length : (bytes.take count).length = count := by
        rw [List.length_take] at enough ⊢
        omega
      refine ⟨bytes.take count, ⟨(List.take_append_drop count bytes).symm, by rw [length]⟩, ?_⟩
      have taken := takes_take start (bytes.take count)
      rwa [length] at taken
  · intro bytes e failed
    unfold take at failed
    dsimp only at failed
    split at failed
    · next few =>
      cases failed
      refine ⟨[], bytes, .refl _, fun others length => ?_⟩
      rw [List.length_take] at few
      simp only [List.nil_append, take, List.length_take, length, few, ↓reduceIte]
    · cases failed

theorem settled_number (count : Nat) : Settled (number count) := (settled_take count).map _

theorem settled_byte : Settled byte := (settled_number 1).map _

theorem settled_word16 : Settled word16 := (settled_number 2).map _

theorem settled_word32 : Settled word32 := (settled_number 4).map _

theorem settled_operand : Settled operand := by
  intro start
  apply settles_position_bind
  apply (settled_byte start).bind
  intro bytes kind rest done
  have behind : rest.position = start + 1 := (took_byte done).position
  split
  · exact (settled_number 3).map _ _
  · split
    · exact ((settled_number 3).bind fun _ => (settled_number 3).map _) _
    · exact settles_fail behind.symm

theorem settled_params : Settled params :=
  settled_word16.bind fun _ => settled_word16.bind fun _ => settled_word16.bind fun _ => settled_word16.bind fun _ =>
    settled_byte.map _

theorem settled_insets (count : Nat) : Settled (insets count) := by
  induction count with
  | zero => exact settled_pure []
  | succ count ih =>
    exact settled_word16.bind fun _ => settled_word16.bind fun _ => settled_operand.bind fun _ => ih.map _

/-- Behind an opcode, operands of the same shape are read by the same readers. -/
theorem settles_body (start : Nat) (code : UInt8) : Settles (body start code) (start + 1) := by
  unfold body
  split
  case h_1 | h_16 | h_17 => exact settled_operand.map _ _
  case h_2 => exact (settled_word16.bind fun _ => settled_word16.bind fun _ => settled_word32.map _) _
  case h_3 => exact (settled_operand.bind fun _ => settled_params.map _) _
  case h_4 => exact (settled_word16.bind fun _ => settled_word16.map _) _
  case h_5 | h_6 | h_9 => exact settled_byte.map _ _
  case h_7 | h_10 => exact settled_pure _ _
  case h_8 => exact (settled_byte.bind fun _ => settled_byte.bind fun _ => settled_byte.map _) _
  case h_11 => exact (settled_byte.bind fun _ => settled_byte.map _) _
  case h_12 | h_13 => exact settled_word32.map _ _
  case h_14 => exact (settled_word32.bind fun _ => settled_byte.map _) _
  case h_15 => exact settled_params.map _ _
  case h_18 => exact (settled_byte.bind fun _ => settled_operand.map _) _
  case h_19 =>
    exact (settled_word16.bind fun _ => settled_word16.bind fun _ => (settled_number 2).bind fun count =>
      (settled_insets count).map _) _
  case h_20 => exact settles_fail rfl

theorem settled_instr : Settled instr := by
  intro start
  apply settles_position_bind
  apply (settled_byte start).bind
  intro bytes code rest done
  have behind : rest.position = start + 1 := (took_byte done).position
  split
  · exact settled_pure none _
  · rw [behind]
    exact (settles_body start code).bind fun _ => settled_pure _ _

/-- The next `count` items: instructions, and bytes that end a block. -/
def items : Nat → Reader (List (Option (Instr Operand)))
  | 0 => pure []
  | count + 1 => do
    let item ← instr
    pure (item :: (← items count))

theorem settled_items (count : Nat) : Settled (items count) := by
  induction count with
  | zero => exact settled_pure []
  | succ count ih => exact settled_instr.bind fun _ => ih.map _

end Reader

section

variable {code : Array UInt8} {start middle stop : Nat}

theorem Window.of_eq (inside : start ≤ min stop code.size) :
    Window.of code start stop = ⟨start, (code.extract start (min stop code.size)).toList⟩ := by
  simp only [Window.of, Nat.min_eq_left inside]

/-- A window that would start behind its end starts at its end. -/
theorem Window.of_min (code : Array UInt8) (start stop : Nat) :
    Window.of code start stop = Window.of code (min start (min stop code.size)) stop := by
  simp only [Window.of, Nat.min_assoc, Nat.min_self]

/-- A window is its bytes up to an offset and the window from there on. -/
theorem Window.of_split (before : start ≤ middle) (inside : middle ≤ min stop code.size) :
    Window.of code start stop =
      ⟨start, (code.extract start middle).toList ++ (Window.of code middle stop).bytes⟩ := by
  rw [Window.of_eq (Nat.le_trans before inside), Window.of_eq inside]
  simp only [← Array.toList_append, Array.extract_append_extract, Nat.min_eq_left before, Nat.max_eq_right inside]

theorem Window.length_of (inside : start ≤ min stop code.size) :
    (Window.of code start stop).bytes.length = min stop code.size - start := by
  rw [Window.of_eq inside]
  simp only [Array.length_toList, Array.size_extract]
  omega

/-- What is taken off a window of a program are bytes of the program, and the window behind them is left. -/
theorem Reader.Took.of_code {taken : List UInt8} {rest : Window} (inside : start ≤ min stop code.size)
    (took : Took (Window.of code start stop) taken rest) :
    start ≤ rest.position ∧ rest.position ≤ min stop code.size ∧ rest = Window.of code rest.position stop ∧
      (code.extract start rest.position).toList = taken := by
  obtain ⟨front, position⟩ := took
  have length := congrArg List.length front
  rw [Window.length_of inside, List.length_append] at length
  have origin : (Window.of code start stop).position = start := by rw [Window.of_eq inside]
  rw [origin] at position
  have before : start ≤ rest.position := by omega
  have within : rest.position ≤ min stop code.size := by omega
  have size : (code.extract start rest.position).toList.length = taken.length := by
    rw [Array.length_toList, Array.size_extract]
    omega
  rw [Window.of_split before within] at front
  obtain ⟨same, left⟩ := List.append_inj front size
  refine ⟨before, within, ?_, same⟩
  rw [Window.of_eq within] at left ⊢
  cases rest
  exact congrArg _ left.symm

namespace Reader

variable {α : Type} {reader : Reader α} {position : Nat} {a : α} {rest : Window}

/-- What a reader gives stands where the bytes that it took are, whatever follows them. -/
theorem Settled.of_ok (settled : Settled reader) (inside : position ≤ min stop code.size)
    (done : reader (Window.of code position stop) = .ok (a, rest)) :
    position ≤ rest.position ∧ rest.position ≤ min stop code.size ∧ rest = Window.of code rest.position stop ∧
      ∀ (other : Array UInt8) (stop' : Nat), rest.position ≤ min stop' other.size →
        other.extract position rest.position = code.extract position rest.position →
          reader (Window.of other position stop') = .ok (a, Window.of other rest.position stop') := by
  rw [Window.of_eq inside] at done
  obtain ⟨taken, took, takes⟩ := (settled position).success done
  have length : rest.position = position + taken.length := took.position
  rw [← Window.of_eq inside] at took
  obtain ⟨before, within, left, isTaken⟩ := took.of_code inside
  refine ⟨before, within, left, fun other stop' holds same => ?_⟩
  rw [Window.of_split before holds, same, isTaken, takes, ← length, Window.of_eq holds]

/-- Why a reader fails stands where the bytes that it looked at are, in a window that ends where this one does. -/
theorem Settled.of_error (settled : Settled reader) (inside : position ≤ min stop code.size) {e : DecodeError}
    (failed : reader (Window.of code position stop) = .error e) :
    position ≤ e.extent ∧ e.extent ≤ min stop code.size ∧
      ∀ (other : Array UInt8) (stop' : Nat), min stop' other.size = min stop code.size →
        other.extract position e.extent = code.extract position e.extent →
          reader (Window.of other position stop') = .error e := by
  rw [Window.of_eq inside] at failed
  obtain ⟨seen, unseen, took, alike⟩ := (settled position).failure failed
  rw [← Window.of_eq inside] at took
  obtain ⟨before, within, left, isSeen⟩ := took.of_code inside
  refine ⟨before, within, fun other stop' sameEnd same => ?_⟩
  have holds : e.extent ≤ min stop' other.size := by rwa [sameEnd]
  have length : unseen.length = min stop code.size - e.extent :=
    (congrArg (fun w => w.bytes.length) left).trans (Window.length_of within)
  rw [Window.of_split before holds, same, isSeen]
  apply alike
  rw [Window.length_of holds, length, sameEnd]

/-- What is told of an outcome: what was read and the offset behind it, or why nothing was. -/
def told (outcome : Except DecodeError (α × Window)) : Except DecodeError (α × Nat) :=
  outcome.map fun done => (done.1, done.2.position)

/-- The offset behind the bytes that were looked at for an outcome. -/
def extent : Except DecodeError (α × Window) → Nat
  | .ok (_, rest) => rest.position
  | .error e => e.extent

/-- A reader of bytes `start` to `stop` of a program whose cursor is at `position` looks at the bytes from the cursor to
the extent of its outcome, all of them in the window, and at no others: where a program differs from this one only
elsewhere, the same is told of it. -/
structure Confined (reader : Reader α) (code : Array UInt8) (start stop position : Nat) : Prop where
  start_le : min start (min stop code.size) ≤ position
  position_le : position ≤ extent (reader (Window.of code position stop))
  extent_le : extent (reader (Window.of code position stop)) ≤ min stop code.size
  told_eq : ∀ (other : Array UInt8) (stop' : Nat), min stop' other.size = min stop code.size →
    other.extract position (extent (reader (Window.of code position stop))) =
        code.extract position (extent (reader (Window.of code position stop))) →
      told (reader (Window.of other position stop')) = told (reader (Window.of code position stop))

theorem Settled.confined (settled : Settled reader) (above : min start (min stop code.size) ≤ position)
    (inside : position ≤ min stop code.size) : Confined reader code start stop position := by
  generalize outcome : reader (Window.of code position stop) = result
  cases result with
  | ok done =>
    obtain ⟨before, within, -, alike⟩ := settled.of_ok inside outcome
    refine ⟨above, ?_, ?_, ?_⟩
    · rwa [outcome]
    · rwa [outcome]
    · intro other stop' sameEnd same
      rw [outcome] at same ⊢
      have holds : done.2.position ≤ min stop' other.size := by rwa [sameEnd]
      rw [alike other stop' holds same, Window.of_eq holds]
      rfl
  | error e =>
    obtain ⟨before, within, alike⟩ := settled.of_error inside outcome
    refine ⟨above, ?_, ?_, ?_⟩
    · rwa [outcome]
    · rwa [outcome]
    · intro other stop' sameEnd same
      rw [outcome] at same ⊢
      rw [alike other stop' sameEnd same]

end Reader

end

/-! ### What is read -/

theorem Stretch.fields_cons (part : Stretch Origin) (rest : List (Stretch Origin)) (start : Nat) :
    fields start (part :: rest) =
      (match part with
        | .operand (.texture _) => [start + 1]
        | _ => []) ++ fields (start + (part.encode Origin.encode).length) rest := by
  cases part with
  | bytes run => rfl
  | operand source => cases source <;> rfl

/-- The fields of some stretches are behind the kind bytes of their texture operands. -/
theorem Stretch.mem_fields {parts : List (Stretch Origin)} {field start : Nat} :
    field ∈ fields start parts ↔ ∃ front id back, parts = front ++ .operand (.texture id) :: back ∧
      field = start + (front.flatMap (encode Origin.encode)).length + 1 := by
  induction parts generalizing start with
  | nil => simp [fields, place]
  | cons part rest ih =>
    rw [fields_cons, List.mem_append, ih]
    constructor
    · rintro (own | ⟨front, id, back, rfl, rfl⟩)
      · split at own
        · next id => exact ⟨[], id, rest, rfl, List.mem_singleton.mp own⟩
        · cases own
      · refine ⟨part :: front, id, back, rfl, ?_⟩
        rw [List.flatMap_cons, List.length_append, Nat.add_assoc start]
    · rintro ⟨front, id, back, split, rfl⟩
      cases front with
      | nil =>
        obtain ⟨rfl, rfl⟩ := List.cons.inj split
        exact .inl (List.mem_singleton.mpr rfl)
      | cons first front =>
        obtain ⟨rfl, rfl⟩ := List.cons.inj split
        refine .inr ⟨front, id, back, rfl, ?_⟩
        rw [List.flatMap_cons, List.length_append]
        omega

theorem Instr.map_origin_place (o : Instr Origin) (position : Nat) :
    (o.place Origin.size Operand.at position).map Operand.origin = o := by
  rw [map_place_eq]
  exact place_self _ _ _

theorem Instr.encode_eq_flatMap (o : Instr Origin) :
    o.encode = o.parts.flatMap (Stretch.encode Origin.encode) := by
  have same : o.map id = o := map_self (fun _ => rfl) o
  have encoded := encode_map id o
  rwa [same] at encoded

/-- The bytes of an item of a block: an instruction, or the end if there is none. -/
def itemBytes : Option (Instr Operand) → List UInt8
  | none => [finishCode]
  | some i => (i.map Operand.origin).encode

theorem itemBytes_ne_nil (item : Option (Instr Operand)) : itemBytes item ≠ [] := by
  cases item with
  | none => exact List.cons_ne_nil _ _
  | some i => exact encode_ne_nil _

/-- The fields of an instruction that stands from `position` on are just where its bytes have the ids of textures, in the
order of its operands, and each of them is the number of its operand. -/
structure Instr.Sited (code : Array UInt8) (position behind : Nat) (i : Instr Operand) : Prop where
  spelled : itemBytes (some i) = (i.map Operand.origin).parts.flatMap (Stretch.encode Origin.encode)
  exact : ∀ field, field ∈ i.fields ↔ ∃ front id back,
    (i.map Operand.origin).parts = front ++ .operand (.texture id) :: back ∧
      field = position + (front.flatMap (Stretch.encode Origin.encode)).length + 1
  apart : i.fields.Pairwise fun first second => first + 3 ≤ second
  inside : ∀ field ∈ i.fields, position < field ∧ field + 3 ≤ behind
  ids : i.fields.map (Bytes.read24 code) = i.ids

/-- An item stands in a program from `position` on, and at `behind` there is what follows it. -/
structure Stands (code : Array UInt8) (position : Nat) (item : Option (Instr Operand)) (behind : Nat) : Prop where
  advances : position < behind
  behind_eq : behind = position + (itemBytes item).length
  bytes : (code.extract position behind).toList = itemBytes item
  sited : ∀ i, item = some i → i.Sited code position behind

theorem Located.Reads.sited {code : Array UInt8} {l : Located} {o : Instr Origin} (reads : l.Reads code o) :
    l.instr.Sited code l.position l.stop := by
  have origin : l.instr.map Operand.origin = o := by
    rw [reads.instr, Instr.map_origin_place]
  have fields : l.instr.fields = Stretch.fields l.position o.parts := by
    rw [reads.instr, Instr.fields_place]
  refine ⟨?_, ?_, ?_, ?_, ?_⟩
  · rw [itemBytes, origin, Instr.encode_eq_flatMap]
  · intro field
    rw [fields, origin, Stretch.mem_fields]
  · rw [fields]
    exact Stretch.fields_apart o.parts l.position
  · intro field member
    exact reads.field_inside member
  · have ids : l.instr.ids = (l.instr.sources.filterMap Operand.texture?).map (·.2) := by
      simpa [textureFields] using (textureFields_map_snd [l.instr]).symm
    rw [ids, Instr.fields, List.map_map]
    apply List.map_congr_left
    intro entry member
    exact (reads.read24_of_mem member).2.2

theorem holds_extract (code : Array UInt8) (start stop : Nat) :
    Holds code start (code.extract start stop).toList := by
  intro k bound
  rw [Array.length_toList, Array.size_extract] at bound
  rw [Array.getElem?_toList, Array.getElem?_extract, if_pos bound]

namespace Reader

theorem took_item {w rest : Window} {item : Option (Instr Operand)} (done : instr w = .ok (item, rest)) :
    Took w (itemBytes item) rest := by
  cases item with
  | none => exact took_finish done
  | some i =>
    obtain ⟨o, -, rfl, took⟩ := took_instr done
    rwa [itemBytes, Instr.map_origin_place]

theorem stands_of_ok {code : Array UInt8} {position stop : Nat} {item : Option (Instr Operand)} {rest : Window}
    (inside : position ≤ min stop code.size) (done : instr (Window.of code position stop) = .ok (item, rest)) :
    Stands code position item rest.position := by
  have took := took_item done
  obtain ⟨-, -, -, bytes⟩ := took.of_code inside
  rw [Window.of_eq inside] at done took
  have behind : rest.position = position + (itemBytes item).length := took.position
  have some := List.length_pos_iff.mpr (itemBytes_ne_nil item)
  refine ⟨by omega, behind, bytes, ?_⟩
  rintro i rfl
  obtain ⟨o, fits, rfl, -⟩ := took_instr done
  rw [itemBytes, Instr.map_origin_place] at bytes behind
  have reads : Located.Reads code ⟨position, o.place Origin.size Operand.at position⟩ o :=
    ⟨fits, rfl, bytes ▸ holds_extract code position rest.position⟩
  rw [behind, ← reads.stop_eq]
  exact reads.sited

/-- However many items have been read from bytes `start` to `stop` of a program, the next is read from these bytes alone,
and so is the reason why there is none. The item stands in the program where the cursor was, the cursor then is behind
it, and reading goes on as if it started there. Where a program has the same bytes, in a window of whatever length, the
same item is read. -/
theorem confined_after {code : Array UInt8} {start stop count : Nat} {past : List (Option (Instr Operand))} {w : Window}
    (read : items count (Window.of code start stop) = .ok (past, w)) :
    w = Window.of code w.position stop ∧ Confined instr code start stop w.position ∧
      ∀ item rest, instr w = .ok (item, rest) →
        rest.position ≤ min stop code.size ∧ rest = Window.of code rest.position stop ∧
          Stands code w.position item rest.position ∧
          ∀ (other : Array UInt8) (stop' : Nat), rest.position ≤ min stop' other.size →
            other.extract w.position rest.position = code.extract w.position rest.position →
              instr (Window.of other w.position stop') = .ok (item, Window.of other rest.position stop') := by
  rw [Window.of_min] at read
  have inside : min start (min stop code.size) ≤ min stop code.size := Nat.min_le_right _ _
  obtain ⟨above, within, left, -⟩ := (settled_items count).of_ok inside read
  refine ⟨left, settled_instr.confined above within, ?_⟩
  intro item rest done
  rw [left] at done
  obtain ⟨-, withinToo, further, alike⟩ := settled_instr.of_ok within done
  exact ⟨withinToo, further, stands_of_ok within done, alike⟩

/-- An instruction without operands and a canvas with a texture and a block, between bytes of something else. -/
def canvasCode : Array UInt8 :=
  #[255, 13, 40, 4, 0, 4, 0, 2, 0, 0, 0, 0, 0, 0, 77, 0, 0, 2, 0, 0, 0, 1, 29, 0, 0, 1, 0, 0, 0, 0]

def canvasItem : Instr Operand := .combine 4 4 [⟨0, 0, ⟨14, .texture 77⟩⟩, ⟨2, 0, ⟨22, .block 29 1⟩⟩]

theorem confined_after_canvas :
    items 1 (Window.of canvasCode 1 28) = .ok ([some .dropAlpha], Window.of canvasCode 2 28) ∧
      instr (Window.of canvasCode 2 28) = .ok (some canvasItem, Window.of canvasCode 28 28) ∧
      Confined instr canvasCode 1 28 2 ∧ Stands canvasCode 2 (some canvasItem) 28 ∧ canvasItem.fields = [14] ∧
      instr (Window.of (canvasCode ++ #[1, 2, 3]) 2 100) =
        .ok (some canvasItem, Window.of (canvasCode ++ #[1, 2, 3]) 28 100) := by
  have read : items 1 (Window.of canvasCode 1 28) = .ok ([some .dropAlpha], Window.of canvasCode 2 28) := by rfl
  have next : instr (Window.of canvasCode 2 28) = .ok (some canvasItem, Window.of canvasCode 28 28) := by rfl
  obtain ⟨-, confined, steps⟩ := confined_after read
  obtain ⟨-, -, stands, alike⟩ := steps _ _ next
  exact ⟨read, next, confined, stands, rfl, alike _ 100 (by decide) (by decide)⟩

end Reader

end TextureLoom.Bytecode
