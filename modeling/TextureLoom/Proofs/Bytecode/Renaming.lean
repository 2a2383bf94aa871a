import TextureLoom.Proofs.Bytecode.Sites

set_option autoImplicit false

namespace TextureLoom.Bytecode

open Encoding (word24)
open Bytes (read24)

theorem Instr.fields_renumber (number : Nat → Nat → Nat) (i : Instr Operand) :
    (i.map (Operand.renumber number)).fields = i.fields := by
  have same : (fun o => (Operand.texture? (Operand.renumber number o)).map (·.1)) =
      fun o => (Operand.texture? o).map (·.1) := by
    funext o
    obtain ⟨field, origin⟩ := o
    cases origin <;> rfl
  rw [fields, fields, Instr.sources_map, List.filterMap_map, List.map_filterMap, List.map_filterMap]
  exact congrArg (fun f => i.sources.filterMap f) same

theorem Located.stop_renumber (number : Nat → Nat → Nat) (l : Located) : (l.renumber number).stop = l.stop := by
  have sized : ∀ (start : Nat) (o : Operand), (o.renumber number).size = o.size :=
    fun _ o => Origin.size_renumber _ o.origin
  rw [stop, stop, renumber, Instr.map, Instr.length_place sized]

theorem Block.Clear.renumber {fields : List Nat} {b : Block} (clear : b.Clear fields) (number : Nat → Nat → Nat) :
    (b.renumber number).Clear fields where
  instrs := by
    intro l' member field isField
    obtain ⟨l, inBlock, rfl⟩ := List.mem_map.mp member
    rw [Located.stop_renumber, Located.position_renumber, Located.renumber, Instr.fields_renumber]
    exact clear.instrs l inBlock field isField
  finish := clear.finish

/-- Two ways of renumbering that agree on the ids of a block. -/
theorem Block.renumber_congr {number number' : Nat → Nat → Nat} {b : Block}
    (same : ∀ l ∈ b.instrs, ∀ field id, (field, id) ∈ l.instr.sources.filterMap Operand.texture? →
      number field id = number' field id) : b.renumber number = b.renumber number' := by
  rw [renumber, renumber]
  congr 1
  apply List.map_congr_left
  intro l member
  refine congrArg (Located.mk l.position) (Instr.map_congr fun o isSource => ?_)
  obtain ⟨field, origin⟩ := o
  cases origin with
  | texture id =>
    have named : Operand.texture? ⟨field, .texture id⟩ = some (field, id) := rfl
    have isTexture := List.mem_filterMap.mpr ⟨_, isSource, named⟩
    rw [Operand.renumber, Operand.renumber, Origin.renumber, Origin.renumber, same l member field id isTexture]
  | block offset length => rfl

section

variable {code code' : Array UInt8} {sites : List Nat} {rename : Nat → Nat}

/-- Ids that are apart from what else a program reads stay so when they are written over. -/
theorem Separate.rewritten (separate : Separate code) (found : textureSites code = .ok sites)
    (rewrites : Rewrites sites code code') : Separate code' := by
  have renumbers := separate.renumbers found rewrites
  intro sites' found' range reaches
  cases found'.symm.trans (renumbers.textureSites_eq found)
  rw [renumbers.reaches_iff] at reaches
  rw [renumbers.blocks range reaches]
  exact (separate sites found range reaches).renumber _

/-- Where each id has been replaced by its new id, a program is the same but for that. -/
theorem Separate.renames (separate : Separate code) (found : textureSites code = .ok sites)
    (rewrites : Rewrites sites code code') (new : ∀ field ∈ sites, read24 code' field = rename (read24 code field)) :
    Renumbers (fun _ => rename) code code' where
  size := rewrites.size
  blocks := by
    intro range reaches
    rw [(separate.renumbers found rewrites).blocks range reaches]
    apply Block.renumber_congr
    intro l member field id isTexture
    obtain ⟨o, reads⟩ := exists_reads found reaches member
    have isSite := (mem_sites found).mpr ⟨range, reaches, l, member, List.mem_map_of_mem isTexture⟩
    rw [new field isSite, (reads.read24_of_mem isTexture).2.2]

/-- The ids of a program that has its ids renamed are the new ones, each where it first comes up. -/
theorem Renumbers.dependencies_map (renumbers : Renumbers (fun _ => rename) code code')
    (found : textureSites code = .ok sites) : dependencies code' = ((dependencies code).map rename).eraseDups := by
  rw [renumbers.dependencies_eq found, dependencies, eraseDups_map_eraseDups, List.map_map]
  rfl

/-- A new id stands where the id was. -/
theorem Renumbers.holds (renumbers : Renumbers (fun _ => rename) code code') (found : textureSites code = .ok sites)
    {field : Nat} (isSite : field ∈ sites) : Holds code' field (word24 (rename (read24 code field))) := by
  have found' := renumbers.textureSites_eq found
  have named : (field, rename (read24 code field)) ∈ textureFields (reachable code') := by
    rw [renumbers.reachable_eq found, Renumbers.textureFields_map, List.mem_map]
    exact ⟨_, (textureFields_reachable found).mpr ⟨isSite, rfl⟩, rfl⟩
  rw [← ((textureFields_reachable found').mp named).2]
  exact holds_word24 (site_le_size found' isSite)

end

/-- What is spelt with other ids is the same outside of the ids. -/
theorem Stretch.getElem?_spell_renumber (number : Nat → Nat → Nat) (parts : List (Stretch Origin)) :
    ∀ start k, (∀ field ∈ fields start parts, start + k < field ∨ field + 3 ≤ start + k) →
      (spell Origin.size (fun start s => (s.renumber (number (start + 1))).encode) start parts)[k]? =
        (spell Origin.size (fun _ s => s.encode) start parts)[k]? := by
  have behind : ∀ {first first' second second' : List UInt8} {k : Nat}, first.length = first'.length →
      (k < first.length → first[k]? = first'[k]?) →
      (first.length ≤ k → second[k - first.length]? = second'[k - first.length]?) →
      (first ++ second)[k]? = (first' ++ second')[k]? := by
    intro first first' second second' k length inFront further
    by_cases bound : k < first.length
    · rw [List.getElem?_append_left bound, List.getElem?_append_left (length ▸ bound), inFront bound]
    · rw [List.getElem?_append_right (Nat.not_lt.mp bound), List.getElem?_append_right (length ▸ Nat.not_lt.mp bound),
        ← length, further (Nat.not_lt.mp bound)]
  induction parts with
  | nil => exact fun _ _ _ => rfl
  | cons part rest ih =>
    intro start k outside
    cases part with
    | bytes run =>
      refine behind rfl (fun _ => rfl) fun above => ih _ _ fun field isField => ?_
      have := outside field isField
      omega
    | operand source =>
      refine behind ?_ (fun bound => ?_) fun above => ?_
      · rw [Origin.encode_length, Origin.encode_length, Origin.size_renumber]
      · cases source with
        | texture id =>
          have out := outside (start + 1) List.mem_cons_self
          rw [Origin.encode_length, Origin.size_renumber, Origin.size] at bound
          have front : k = 0 := by omega
          rw [front]
          rfl
        | block offset length => rfl
      · rw [Origin.encode_length, Origin.size_renumber] at above ⊢
        refine ih _ _ fun field isField => ?_
        have later : field ∈ fields start (.operand source :: rest) := by
          cases source with
          | texture id => exact List.mem_cons_of_mem _ isField
          | block offset length => exact isField
        have := outside field later
        omega

theorem Instr.origins_place (o : Instr Origin) (start : Nat) :
    (o.place Origin.size Operand.at start).map Operand.origin = o := by
  rw [map_place_eq]
  exact o.place_self _ _

section

variable {code code' : Array UInt8} {number : Nat → Nat → Nat}

/-- An instruction that is the same but for ids has the same bytes outside of them. -/
theorem Located.Reads.getElem?_renumber {l : Located} {o o' : Instr Origin} (reads : l.Reads code o)
    (renumbered : (l.renumber number).Reads code' o') {k : Nat} (above : l.position ≤ k) (below : k < l.stop)
    (outside : ∀ field ∈ l.instr.fields, k < field ∨ field + 3 ≤ k) : code'[k]? = code[k]? := by
  have same : o' = o.place Origin.size (fun start s => s.renumber (number (start + 1))) l.position := by
    have instr := renumbered.instr
    rw [Located.renumber, reads.instr, Instr.map_place_eq] at instr
    rw [← o'.origins_place l.position, ← instr, Instr.map_place_eq]
    rfl
  obtain ⟨j, rfl⟩ := Nat.exists_eq_add_of_le above
  have length : o'.encode.length = o.encode.length := by
    have stops := renumbered.stop_eq
    rw [Located.stop_renumber, Located.position_renumber, reads.stop_eq] at stops
    omega
  rw [reads.stop_eq] at below
  have was := reads.holds j (by omega)
  have is := renumbered.holds j (by omega)
  rw [Located.position_renumber] at is
  rw [was, is, same, Instr.encode_place, o.encode_eq_spell l.position]
  apply Stretch.getElem?_spell_renumber number
  rwa [← Instr.fields_place, ← reads.instr]

/-- The byte that ends a block. -/
theorem Block.getElem?_finish {start stop finish : Nat} (ends : (Block.of code start stop).finish = .ok finish) :
    code[finish]? = some finishCode := by
  obtain ⟨before, instrs, after, rfl, -, split, rfl, -, -⟩ := Block.exists_of_finish ends
  have holds : Holds code before.length (instrs.flatMap Instr.encode ++ [finishCode]) :=
    holds_of_toList (split.trans (by rw [List.append_assoc]; rfl))
  exact ((holds_append _).mp holds).2 0 Nat.one_pos

end

/-- Another id in the place of one. -/
def only (old new : Nat) : Nat → Nat := fun id => if id = old then new else id

/-- Two programs that are the same as a program but for one id, which differs in one byte between them. -/
structure Tells (code : Array UInt8) (field offset : Nat) (first second : Array UInt8) : Prop where
  first : Renumbers (fun _ => only (read24 code field) 0) code first
  second : Renumbers (fun _ => only (read24 code field) (256 ^ offset)) code second

namespace Tells

variable {code first second : Array UInt8} {sites : List Nat} {field offset : Nat}

theorem word24_pow : ∀ offset < 3, ∀ k < 3, (word24 (256 ^ offset))[k]? = some (if k = offset then 1 else 0) := by
  decide

theorem word24_zero : ∀ k < 3, (word24 0)[k]? = some 0 := by decide

theorem differ (tells : Tells code field offset first second) (found : textureSites code = .ok sites)
    (isSite : field ∈ sites) (bound : offset < 3) : first[field + offset]? ≠ second[field + offset]? := by
  have firstHolds := tells.first.holds found isSite offset bound
  have secondHolds := tells.second.holds found isSite offset bound
  rw [only, if_pos rfl] at firstHolds secondHolds
  rw [firstHolds, secondHolds, word24_zero offset bound, word24_pow offset bound offset bound, if_pos rfl]
  decide

/-- What an instruction reads beside the id is the same in both. -/
theorem same_of_mem (tells : Tells code field offset first second) (found : textureSites code = .ok sites)
    (bound : offset < 3) {range : Nat × Nat} (reaches : Reaches code range) {l : Located}
    (member : l ∈ (Block.within code range).instrs) (foreign : field ∉ l.instr.fields)
    (above : l.position ≤ field + offset) (below : field + offset < l.stop) :
    first[field + offset]? = second[field + offset]? := by
  obtain ⟨o, reads⟩ := exists_reads found reaches member
  by_cases own : ∃ other ∈ l.instr.fields, other ≤ field + offset ∧ field + offset < other + 3
  · obtain ⟨other, isField, before, behind⟩ := own
    have isSite := (mem_sites found).mpr ⟨range, reaches, l, member, isField⟩
    obtain ⟨k, same⟩ := Nat.exists_eq_add_of_le before
    rw [same] at behind ⊢
    have small : k < 3 := by omega
    rw [tells.first.holds found isSite k small, tells.second.holds found isSite k small, only, only]
    split
    · have elsewhere : k ≠ offset := by
        rintro rfl
        exact foreign (Nat.add_right_cancel same ▸ isField)
      rw [word24_zero k small, word24_pow offset bound k small, if_neg elsewhere]
    · rfl
  · have outside : ∀ other ∈ l.instr.fields, field + offset < other ∨ other + 3 ≤ field + offset := by
      intro other isField
      by_contra overlaps
      exact own ⟨other, isField, by omega, by omega⟩
    have either : ∀ {rename : Nat → Nat} {code' : Array UInt8}, Renumbers (fun _ => rename) code code' →
        code'[field + offset]? = code[field + offset]? := by
      intro rename code' renumbers
      have inBlock : l.renumber (fun _ => rename) ∈ (Block.within code' range).instrs := by
        rw [renumbers.blocks range reaches]
        exact List.mem_map_of_mem member
      obtain ⟨o', renumbered⟩ :=
        exists_reads (renumbers.textureSites_eq found) (renumbers.reaches_iff.mpr reaches) inBlock
      exact reads.getElem?_renumber renumbered above below outside
    rw [either tells.first, either tells.second]

theorem same_of_finish (tells : Tells code field offset first second) {range : Nat × Nat} (reaches : Reaches code range)
    (ends : (Block.within code range).finish = .ok (field + offset)) :
    first[field + offset]? = second[field + offset]? := by
  have either : ∀ {rename : Nat → Nat} {code' : Array UInt8}, Renumbers (fun _ => rename) code code' →
      code'[field + offset]? = some finishCode := by
    intro rename code' renumbers
    have sameEnd := congrArg Block.finish (renumbers.blocks range reaches)
    exact Block.getElem?_finish (sameEnd.trans ends)
  rw [either tells.first, either tells.second]

end Tells

/-- If each id of a program can be replaced by every other, and nothing else changes, its ids are apart from what else
it reads. -/
theorem separate_of_renumbers {code : Array UInt8}
    (each : ∀ old new, old < limit24 → new < limit24 → ∃ code', Renumbers (fun _ => only old new) code code') :
    Separate code := by
  intro sites found range reaches
  -- Two programs that differ in a byte of an id cannot both have something else there.
  have apart : ∀ field ∈ sites, ∀ offset < 3, ∃ first second, Tells code field offset first second ∧
      first[field + offset]? ≠ second[field + offset]? := by
    intro field isSite offset bound
    have small : 256 ^ offset < limit24 := by
      rw [limit24_eq]
      exact Nat.pow_lt_pow_right (by omega) bound
    obtain ⟨first, isFirst⟩ := each (read24 code field) 0 (read24_lt code field) (by decide)
    obtain ⟨second, isSecond⟩ := each (read24 code field) (256 ^ offset) (read24_lt code field) small
    exact ⟨first, second, ⟨isFirst, isSecond⟩, Tells.differ ⟨isFirst, isSecond⟩ found isSite bound⟩
  constructor
  · intro l member field isSite
    by_contra meets
    obtain ⟨foreign, inside⟩ := not_or.mp meets
    obtain ⟨o, reads⟩ := exists_reads found reaches member
    have some := List.length_pos_iff.mpr (encode_ne_nil o)
    have stops := reads.stop_eq
    obtain ⟨offset, same⟩ := Nat.exists_eq_add_of_le (Nat.le_max_left field l.position)
    have bound : offset < 3 := by omega
    obtain ⟨first, second, tells, differ⟩ := apart field isSite offset bound
    exact differ (tells.same_of_mem found bound reaches member foreign (by omega) (by omega))
  · intro position ends field isSite
    by_contra meets
    obtain ⟨offset, rfl⟩ := Nat.exists_eq_add_of_le (show field ≤ position by omega)
    obtain ⟨first, second, tells, differ⟩ := apart field isSite offset (by omega)
    exact differ (tells.same_of_finish reaches ends)

end TextureLoom.Bytecode
