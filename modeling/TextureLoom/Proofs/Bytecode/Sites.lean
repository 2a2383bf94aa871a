import TextureLoom.Program
import TextureLoom.Proofs.Bytecode.Reaching
import TextureLoom.Proofs.Repeats

set_option autoImplicit false

namespace TextureLoom.Bytecode

open Encoding (word24)
open Reach (walkProgram)

variable {code code' : Array UInt8} {sites : List Nat}

theorem Holds.le_size {start : Nat} {bytes : List UInt8} (holds : Holds code start bytes) (some : bytes ≠ []) :
    start + bytes.length ≤ code.size := by
  obtain ⟨before, after, rfl, split⟩ := holds.exists_split some
  rw [← Array.length_toList, split, List.length_append, List.length_append]
  omega

theorem mem_textureFields {instrs : List (Instr Operand)} {field : Nat} :
    field ∈ (textureFields instrs).map (·.1) ↔ ∃ i ∈ instrs, field ∈ i.fields := by
  rw [textureFields, List.map_flatMap, List.mem_flatMap]
  rfl

theorem exists_walk_of_textureSites (found : textureSites code = .ok sites) :
    ∃ trail, walkProgram true code = .ok trail ∧
      sites = ((textureFields trail.met.toList).map (·.1)).mergeSort.eraseReps := by
  obtain ⟨trail, walked, same⟩ := exists_of_bind_eq_ok found
  exact ⟨trail, walked, (Except.ok.inj same).symm⟩

/-- The sites are the fields that a walk meets, ascending. -/
theorem textureSites_eq_ok {trail : Trail} (walked : walkProgram true code = .ok trail)
    (ascends : sites.Pairwise (· < ·))
    (same : ∀ field, field ∈ (textureFields trail.met.toList).map (·.1) ↔ field ∈ sites) :
    textureSites code = .ok sites := by
  have sorted := eq_of_ascends (ascends_eraseReps_mergeSort ((textureFields trail.met.toList).map (·.1))) ascends
    fun field => by rw [mem_eraseReps, List.mem_mergeSort, same]
  rw [textureSites, walked]
  exact congrArg Except.ok sorted

theorem ascends_sites (found : textureSites code = .ok sites) : sites.Pairwise (· < ·) := by
  obtain ⟨trail, -, rfl⟩ := exists_walk_of_textureSites found
  exact ascends_eraseReps_mergeSort _

/-- The sites of a program are the fields of the instructions that it reaches. -/
theorem mem_sites (found : textureSites code = .ok sites) {field : Nat} :
    field ∈ sites ↔ ∃ range, Reaches code range ∧ ∃ l ∈ (Block.within code range).instrs, field ∈ l.instr.fields := by
  obtain ⟨trail, walked, rfl⟩ := exists_walk_of_textureSites found
  rw [mem_eraseReps, List.mem_mergeSort, mem_textureFields]
  constructor
  · rintro ⟨i, met, isField⟩
    obtain ⟨range, reaches, l, member, rfl⟩ := (grounded_of_walkProgram walked).met i (Array.mem_toList_iff.mp met)
    exact ⟨range, reaches, l, member, isField⟩
  · rintro ⟨range, reaches, l, member, isField⟩
    have met := (covers_of_reaches walked reaches).met l member
    exact ⟨l.instr, Array.mem_toList_iff.mpr met, isField⟩

/-- What a program with sites reaches can be decoded. -/
theorem exists_finish (found : textureSites code = .ok sites) {range : Nat × Nat} (reaches : Reaches code range) :
    ∃ position, (Block.within code range).finish = .ok position := by
  obtain ⟨trail, walked, -⟩ := exists_walk_of_textureSites found
  exact (covers_of_reaches walked reaches).ends

theorem exists_reads (found : textureSites code = .ok sites) {range : Nat × Nat} (reaches : Reaches code range)
    {l : Located} (member : l ∈ (Block.within code range).instrs) : ∃ o, l.Reads code o := by
  obtain ⟨position, ends⟩ := exists_finish found reaches
  exact (Block.exists_reads ends member).1

theorem mem_reachable (found : textureSites code = .ok sites) {i : Instr Operand} :
    i ∈ reachable code ↔ ∃ range, Reaches code range ∧ ∃ l ∈ (Block.within code range).instrs, l.instr = i := by
  obtain ⟨trail, walked, -⟩ := exists_walk_of_textureSites found
  rw [reachable_eq_of_walkProgram walked, Array.mem_toList_iff]
  constructor
  · exact (grounded_of_walkProgram walked).met i
  · rintro ⟨range, reaches, l, member, rfl⟩
    exact (covers_of_reaches walked reaches).met l member

/-- The ids that a program names are the numbers at its sites. -/
theorem textureFields_reachable (found : textureSites code = .ok sites) {field id : Nat} :
    (field, id) ∈ textureFields (reachable code) ↔ field ∈ sites ∧ Bytes.read24 code field = id := by
  have reads : ∀ {field id}, (field, id) ∈ textureFields (reachable code) →
      field ∈ sites ∧ Bytes.read24 code field = id := by
    intro field id member
    obtain ⟨i, isReachable, isTexture⟩ := List.mem_flatMap.mp member
    obtain ⟨range, reaches, l, inBlock, rfl⟩ := (mem_reachable found).mp isReachable
    obtain ⟨o, reads⟩ := exists_reads found reaches inBlock
    exact ⟨(mem_sites found).mpr ⟨range, reaches, l, inBlock, List.mem_map_of_mem isTexture⟩,
      (reads.read24_of_mem isTexture).2.2⟩
  constructor
  · exact reads
  · rintro ⟨isSite, rfl⟩
    obtain ⟨range, reaches, l, inBlock, isField⟩ := (mem_sites found).mp isSite
    obtain ⟨⟨_, id⟩, isTexture, rfl⟩ := List.mem_map.mp isField
    have member : (_, id) ∈ textureFields (reachable code) :=
      List.mem_flatMap.mpr ⟨l.instr, (mem_reachable found).mpr ⟨range, reaches, l, inBlock, rfl⟩, isTexture⟩
    rw [(reads member).2]
    exact member

/-- What a program depends on are the numbers at its sites. -/
theorem mem_dependencies_iff (found : textureSites code = .ok sites) {id : Nat} :
    id ∈ dependencies code ↔ ∃ field ∈ sites, Bytes.read24 code field = id := by
  rw [dependencies, List.mem_eraseDups, List.mem_map]
  constructor
  · rintro ⟨⟨field, id⟩, member, rfl⟩
    exact ⟨field, (textureFields_reachable found).mp member⟩
  · rintro ⟨field, isSite, same⟩
    exact ⟨(field, id), (textureFields_reachable found).mpr ⟨isSite, same⟩, rfl⟩

theorem site_le_size (found : textureSites code = .ok sites) {field : Nat} (isSite : field ∈ sites) :
    field + 3 ≤ code.size := by
  obtain ⟨range, reaches, l, inBlock, isField⟩ := (mem_sites found).mp isSite
  obtain ⟨o, reads⟩ := exists_reads found reaches inBlock
  have within := (reads.field_inside isField).2
  have bound := reads.holds.le_size (encode_ne_nil o)
  rw [reads.stop_eq] at within
  exact Nat.le_trans within bound

namespace Renumbers

variable {number : Nat → Nat → Nat}

theorem reachable_eq (renumbers : Renumbers number code code') (found : textureSites code = .ok sites) :
    reachable code' = (reachable code).map (Instr.map (Operand.renumber number)) := by
  obtain ⟨trail, walked, -⟩ := exists_walk_of_textureSites found
  rw [reachable_eq_of_walkProgram (renumbers.walkProgram_eq true walked), reachable_eq_of_walkProgram walked,
    Trail.renumber, Array.toList_map]

theorem textureFields_map (number : Nat → Nat → Nat) (instrs : List (Instr Operand)) :
    textureFields (instrs.map (Instr.map (Operand.renumber number))) =
      (textureFields instrs).map fun entry => (entry.1, number entry.1 entry.2) := by
  have each : Operand.texture? ∘ Operand.renumber number =
      fun o => (o.texture?).map fun entry => (entry.1, number entry.1 entry.2) := by
    funext o
    obtain ⟨field, origin⟩ := o
    cases origin <;> rfl
  rw [textureFields, textureFields, List.flatMap_map, List.map_flatMap]
  congr 1
  funext i
  rw [Instr.sources_map, List.filterMap_map, each, List.map_filterMap]

theorem textureSites_eq (renumbers : Renumbers number code code') (found : textureSites code = .ok sites) :
    textureSites code' = .ok sites := by
  obtain ⟨trail, walked, rfl⟩ := exists_walk_of_textureSites found
  rw [textureSites, renumbers.walkProgram_eq true walked]
  have same : (textureFields (trail.renumber number).met.toList).map (·.1) =
      (textureFields trail.met.toList).map (·.1) := by
    rw [Trail.renumber, Array.toList_map, textureFields_map, List.map_map]
    rfl
  exact congrArg (fun fields : List Nat => Except.ok fields.mergeSort.eraseReps) same

theorem dependencies_eq (renumbers : Renumbers number code code') (found : textureSites code = .ok sites) :
    dependencies code' = ((textureFields (reachable code)).map fun entry => number entry.1 entry.2).eraseDups := by
  rw [dependencies, renumbers.reachable_eq found, textureFields_map, List.map_map]
  rfl

end Renumbers

/-- The ids that a program reaches are apart from what else it reads: a byte of one is read as a byte of that id, and
as nothing else. -/
def Separate (code : Array UInt8) : Prop :=
  ∀ sites, textureSites code = .ok sites → ∀ range, Reaches code range → (Block.within code range).Clear sites

theorem Separate.renumbers (separate : Separate code) (found : textureSites code = .ok sites)
    (rewrites : Rewrites sites code code') : Renumbers (fun field _ => Bytes.read24 code' field) code code' where
  size := rewrites.size
  blocks := by
    intro range reaches
    obtain ⟨position, ends⟩ := exists_finish found reaches
    exact Block.of_rewritten rewrites ends (separate sites found range reaches)

theorem Stretch.fields_apart (parts : List (Stretch Origin)) :
    ∀ start, (fields start parts).Pairwise fun first second => first + 3 ≤ second := by
  induction parts with
  | nil => exact fun _ => .nil
  | cons part rest ih =>
    intro start
    cases part with
    | bytes run => exact ih (start + run.length)
    | operand source =>
      cases source with
      | texture id =>
        refine .cons (fun field member => ?_) (ih (start + 4))
        have behind := lt_of_mem_fields (start + 4) member
        exact Nat.le_of_lt behind
      | block offset length => exact ih (start + 7)

/-- The ids of a program whose ids are apart from what else it reads do not overlap. -/
theorem Separate.sites_apart (separate : Separate code) (found : textureSites code = .ok sites) :
    sites.Pairwise fun first second => first + 3 ≤ second := by
  refine (List.Pairwise.and_mem.mp (ascends_sites found)).imp fun {first second} ⟨isFirst, isSecond, less⟩ => ?_
  obtain ⟨range, reaches, l, inBlock, isField⟩ := (mem_sites found).mp isFirst
  obtain ⟨o, reads⟩ := exists_reads found reaches inBlock
  obtain ⟨begins, ends⟩ := reads.field_inside isField
  rcases (separate sites found range reaches).instrs l inBlock second isSecond with own | behind | before
  · rw [reads.instr, Instr.fields_place] at own isField
    have either := eq_or_of_pairwise (Stretch.fields_apart o.parts l.position) isField own
    omega
  · exact Nat.le_trans ends behind
  · omega

end TextureLoom.Bytecode

namespace TextureLoom.Program

open Bytecode (Holds Rewrites limit24)
open Bytecode.Encoding (word24)

variable {code : Array UInt8}

@[simp] theorem size_write24 (code : Array UInt8) (field value : Nat) :
    (Bytes.write24 code field value).size = code.size := by
  simp [Bytes.write24]

theorem getElem?_write24 {field k : Nat} (value : Nat) (outside : k < field ∨ field + 3 ≤ k) :
    (Bytes.write24 code field value)[k]? = code[k]? := by
  rw [Bytes.write24, Array.getElem?_setIfInBounds_ne (by omega), Array.getElem?_setIfInBounds_ne (by omega),
    Array.getElem?_setIfInBounds_ne (by omega)]

theorem holds_write24 {field : Nat} (value : Nat) (inside : field + 3 ≤ code.size) :
    Holds (Bytes.write24 code field value) field (word24 value) := by
  have low : value / 65536 = value / 256 / 256 := by omega
  intro k bound
  match k, bound with
  | 0, _ | 1, _ | 2, _ =>
    simp [Bytes.write24, word24, Bytes.littleEndian, Array.getElem?_setIfInBounds, low]
    omega

/-- Writing fields changes these fields only. -/
theorem rewrites_writeFields (entries : List (Nat × Nat)) :
    ∀ code, Rewrites (entries.map (·.1)) code (writeFields code entries) := by
  induction entries with
  | nil => exact fun code => ⟨rfl, fun _ _ => rfl⟩
  | cons entry rest ih =>
    intro code
    obtain ⟨size, outside⟩ := ih (Bytes.write24 code entry.1 entry.2)
    refine ⟨size.trans (size_write24 _ _ _), fun k clear => ?_⟩
    rw [List.map_cons, List.forall_mem_cons] at clear
    exact (outside k clear.2).trans (getElem?_write24 entry.2 clear.1)

/-- Each field that is written, if it is there and clear of the others, has its value then. -/
theorem read24_writeFields {entries : List (Nat × Nat)} {field value : Nat} (small : value < limit24)
    (apart : entries.Pairwise fun first second => first.1 + 3 ≤ second.1) :
    ∀ {code : Array UInt8}, (∀ entry ∈ entries, entry.1 + 3 ≤ code.size) → (field, value) ∈ entries →
      Bytes.read24 (writeFields code entries) field = value := by
  induction entries with
  | nil => exact fun _ member => absurd member List.not_mem_nil
  | cons entry rest ih =>
    intro code inside member
    obtain ⟨clear, apart⟩ := List.pairwise_cons.mp apart
    rcases List.mem_cons.mp member with rfl | later
    · have written : Holds (Bytes.write24 code field value) field _ := holds_write24 value (inside _ List.mem_cons_self)
      refine Holds.read24_eq (fun k bound => ?_) small
      rw [← written k bound]
      refine (rewrites_writeFields rest _).outside _ fun other isField => ?_
      obtain ⟨later, inRest, rfl⟩ := List.mem_map.mp isField
      have behind := clear later inRest
      rw [Bytecode.Instr.word24_length] at bound
      exact .inl (by omega)
    · refine ih apart (fun other inRest => ?_) later
      rw [size_write24]
      exact inside other (List.mem_cons_of_mem _ inRest)

end TextureLoom.Program
