import TextureLoom.Proofs.Compile.Naming

set_option autoImplicit false

namespace TextureLoom

namespace Compile

open Bytecode (Instr Stretch)

variable {d : Draft} {jobs : List Job} {p : Pipeline}

/-! ### Names in the order of the blocks -/

def Ref.name? : Ref → Option String
  | .name text => some text
  | .block _ => none

theorem map_name_partPatches (parts : List (Stretch Ref)) : ∀ start,
    (partPatches start parts).map (·.name) = (parts.filterMap Stretch.operand?).filterMap Ref.name? := by
  induction parts with
  | nil => exact fun _ => rfl
  | cons part rest ih =>
    intro start
    cases part with
    | bytes run => exact ih (start + run.length)
    | operand ref =>
      have later := ih (start + ref.size)
      cases ref with
      | name text => exact congrArg (List.cons text) later
      | block index => exact later

theorem filterMap_operand?_programParts (blocks : List (List (Instr Ref))) :
    (programParts blocks).filterMap Stretch.operand? = blocks.flatMap fun block => block.flatMap Instr.sources := by
  have each : ∀ block : List (Instr Ref), (blockParts block).filterMap Stretch.operand? = block.flatMap Instr.sources := by
    intro block
    rw [blockParts, List.filterMap_append, List.filterMap_flatMap]
    have finish : ([.bytes [Bytecode.finishCode]] : List (Stretch Ref)).filterMap Stretch.operand? = [] := rfl
    rw [finish, List.append_nil]
    exact List.flatMap_congr fun i _ => i.sources_eq_filterMap.symm
  rw [programParts, List.filterMap_flatMap]
  exact List.flatMap_congr fun block _ => each block

/-- The operands of what a pipeline denotes are the images that it is made of. -/
theorem sources_of_denotes {instrs : List (Instr Piece)} (denotes : p.Denotes instrs) :
    instrs.flatMap Instr.sources = p.pieces := by
  obtain ⟨first, rest, base, stages, rfl⟩ := denotes
  rw [List.flatMap_cons, base.sources_eq, Call.flatMap_sources stages, Pipeline.pieces]

/-- The names in a block are those that its pipeline is written with outside of nested ones. -/
theorem IsBlockOf.names_eq {index : Nat} {job : Job} {block : List (Instr Ref)} (isBlock : IsBlockOf jobs index job block) :
    (block.flatMap Instr.sources).filterMap Ref.name? = namesAt 0 job.pipeline.mentions := by
  have pieces : job.pipeline.pieces = (block.flatMap Instr.sources).map (Ref.piece jobs) := by
    rw [← sources_of_denotes isBlock.instrs.denotes, List.flatMap_map, List.map_flatMap]
    exact List.flatMap_congr fun i _ => Instr.sources_map ..
  have each : ∀ ref ∈ block.flatMap Instr.sources, (Ref.piece jobs ref).namesAt 0 = ref.name?.toList := by
    intro ref member
    cases ref with
    | name text => rfl
    | block inner =>
      obtain ⟨i, isInstr, isSource⟩ := List.mem_flatMap.mp member
      obtain ⟨_, nestedJob, isJob, _⟩ := isBlock.nested i isInstr inner isSource
      rw [Ref.piece, isJob]
      rfl
  rw [isBlock.instrs.namesAt_mentions, pieces, List.flatMap_map, List.filterMap_eq_flatMap_toList]
  exact (List.flatMap_congr each).symm

/-- The names of compiled code are listed pipeline by pipeline, in the order of the blocks. -/
theorem names_of_isDraft (isDraft : Draft.IsDraftOf d jobs p) :
    (Compiled.ofDraft d).patches.toList.map (·.name) =
      (jobs.map (·.pipeline)).flatMap fun q => namesAt 0 q.mentions := by
  have each : d.blocks.toList.map (fun block => (block.flatMap Instr.sources).filterMap Ref.name?) =
      jobs.map fun job => namesAt 0 job.pipeline.mentions := by
    apply List.ext_getElem?
    intro index
    rw [List.getElem?_map, List.getElem?_map]
    cases found : jobs[index]? with
    | none =>
      have outside := List.getElem?_eq_none_iff.mp found
      rw [isDraft.counted, ← Array.length_toList] at outside
      rw [List.getElem?_eq_none outside]
      rfl
    | some job =>
      obtain ⟨block, _, isBlock, blockOf⟩ := exists_block isDraft found
      rw [isBlock, Option.map_some, Option.map_some, blockOf.names_eq]
  rw [(Compiled.consists_ofDraft d).patches, map_name_partPatches, filterMap_operand?_programParts,
    List.filterMap_flatMap, List.flatMap_def, each, List.flatMap_map, List.flatMap_def]

/-- Breadth first, names come by how deep they are. -/
theorem flatMap_namesAt_zero {order : List Pipeline} (breadthFirst : order = p :: order.flatMap Pipeline.nested)
    (compiled : ∀ q ∈ order, ∃ room instrs, IsReadAs room q instrs) (bound : Nat) :
    (order.flatMap fun q => namesAt 0 q.mentions) =
      ((List.range bound).flatMap fun depth => namesAt depth p.mentions) ++
        order.flatMap fun q => namesAt bound q.mentions := by
  induction bound with
  | zero => rfl
  | succ bound ih =>
    have next : (order.flatMap fun q => namesAt (bound + 1) q.mentions) =
        (order.flatMap Pipeline.nested).flatMap fun q => namesAt bound q.mentions := by
      rw [List.flatMap_assoc]
      refine List.flatMap_congr fun q member => ?_
      obtain ⟨room, instrs, read⟩ := compiled q member
      exact read.namesAt_succ
    have level : (order.flatMap fun q => namesAt bound q.mentions) = namesAt bound p.mentions ++
        (order.flatMap Pipeline.nested).flatMap fun q => namesAt bound q.mentions :=
      congrArg (List.flatMap fun q => namesAt bound q.mentions) breadthFirst
    rw [ih, level, next, List.range_succ, List.flatMap_append, List.flatMap_singleton, List.append_assoc]

end Compile

/-! ### The order of levels -/

/-- One mention comes before another by levels: it is in fewer nested pipelines, or in as many and written in front. -/
def Mention.Above (m n : Mention) : Prop := m.depth < n.depth ∨ m.depth = n.depth ∧ m.offset < n.offset

instance (m n : Mention) : Decidable (m.Above n) := inferInstanceAs (Decidable (_ ∨ _))

/-- The mentions that are taken, by how deep they are. -/
def levels (bound : Nat) (mentions : List Mention) : List Mention :=
  (List.range bound).flatMap fun depth => mentions.filter fun m => m.taken ∧ m.depth = depth

theorem Mention.Above.asymm {m n : Mention} (above : m.Above n) : ¬n.Above m := by
  unfold Above at above ⊢
  omega

theorem mem_levels {bound : Nat} {mentions : List Mention} {m : Mention} :
    m ∈ levels bound mentions ↔ m ∈ mentions ∧ m.taken ∧ m.depth < bound := by
  simp only [levels, List.mem_flatMap, List.mem_range, List.mem_filter, decide_eq_true_eq]
  constructor
  · rintro ⟨depth, inside, member, taken, rfl⟩
    exact ⟨member, taken, inside⟩
  · rintro ⟨member, taken, inside⟩
    exact ⟨m.depth, inside, member, taken, rfl⟩

theorem pairwise_levels {mentions : List Mention} (ascends : mentions.Pairwise (·.offset < ·.offset)) (bound : Nat) :
    (levels bound mentions).Pairwise Mention.Above := by
  refine List.pairwise_flatMap.mpr ⟨fun depth _ => ?_, List.pairwise_lt_range.imp fun {first second} less => ?_⟩
  · have level := ascends.filter fun m => m.taken ∧ m.depth = depth
    refine level.imp_of_mem fun {m n} mIn nIn front => .inr ⟨?_, front⟩
    have mHolds := of_decide_eq_true (List.mem_filter.mp mIn).2
    have nHolds := of_decide_eq_true (List.mem_filter.mp nIn).2
    exact mHolds.2.trans nHolds.2.symm
  · intro m mIn n nIn
    have mHolds := of_decide_eq_true (List.mem_filter.mp mIn).2
    have nHolds := of_decide_eq_true (List.mem_filter.mp nIn).2
    exact .inl (by rw [mHolds.2, nHolds.2]; exact less)

/-- Where no mention is deeper than the levels go, they have all that are taken. -/
theorem perm_levels {mentions : List Mention} (ascends : mentions.Pairwise (·.offset < ·.offset)) {bound : Nat}
    (shallow : ∀ m ∈ mentions, m.depth < bound) : (levels bound mentions).Perm (mentions.filter (·.taken)) := by
  have once : (levels bound mentions).Nodup := by
    refine (pairwise_levels ascends bound).imp ?_
    rintro m _ above rfl
    exact above.asymm above
  have onceToo : mentions.Nodup := by
    refine ascends.imp ?_
    rintro m _ front rfl
    exact Nat.lt_irrefl _ front
  refine (List.perm_ext_iff_of_nodup once (onceToo.filter _)).mpr fun m => ?_
  rw [mem_levels, List.mem_filter]
  exact and_congr_right fun member => and_iff_left (shallow m member)

/-! ### First occurrences -/

/-- One name leads another: some mention of it stands in front of all mentions of the other. -/
def Leads (front : Mention → Mention → Prop) (mentions : List Mention) (name other : String) : Prop :=
  ∃ m ∈ mentions, m.name = name ∧ ∀ n ∈ mentions, n.name = other → front m n

instance (front : Mention → Mention → Prop) [∀ m n, Decidable (front m n)] (mentions : List Mention)
    (name other : String) : Decidable (Leads front mentions name other) :=
  inferInstanceAs (Decidable (∃ m ∈ mentions, _))

section

variable {front behind : Mention → Mention → Prop} {mentions others : List Mention} {name other : String}

theorem Leads.mem (leads : Leads front mentions name other) : name ∈ (mentions.map (·.name)).eraseDups := by
  obtain ⟨m, member, rfl, _⟩ := leads
  exact List.mem_eraseDups.mpr (List.mem_map_of_mem member)

/-- Of two names at most one leads the other. -/
theorem Leads.asymm (asymm : ∀ m n, front m n → ¬front n m) (leads : Leads front mentions name other) :
    ¬Leads front mentions other name := by
  rintro ⟨n, nMember, rfl, nFront⟩
  obtain ⟨m, mMember, rfl, mFront⟩ := leads
  exact asymm m n (mFront n nMember rfl) (nFront m mMember rfl)

/-- Names without repetitions are in the order of their first mentions. -/
theorem pairwise_leads (stands : mentions.Pairwise front) :
    (mentions.map (·.name)).eraseDups.Pairwise (Leads front mentions) := by
  induction mentions using List.reverseRecOn with
  | nil => exact .nil
  | append_singleton mentions last ih =>
    obtain ⟨sorted, _, cross⟩ := List.pairwise_append.mp stands
    have wider : ∀ {name other}, Leads front mentions name other → Leads front (mentions ++ [last]) name other := by
      rintro name other ⟨m, member, named, leads⟩
      refine ⟨m, List.mem_append_left _ member, named, fun n nMember => ?_⟩
      rcases List.mem_append.mp nMember with inMentions | isLast
      · exact leads n inMentions
      · exact fun _ => cross m member n isLast
    rw [List.map_append, List.map_singleton, eraseDups_concat]
    split
    · exact (ih sorted).imp wider
    · next isNew =>
      refine List.pairwise_append.mpr ⟨(ih sorted).imp wider, List.pairwise_singleton .., fun name known other same => ?_⟩
      cases List.mem_singleton.mp same
      obtain ⟨m, member, rfl⟩ := List.mem_map.mp (List.mem_eraseDups.mp known)
      refine ⟨m, List.mem_append_left _ member, rfl, fun n nMember named => ?_⟩
      rcases List.mem_append.mp nMember with inMentions | isLast
      · exact absurd (List.contains_iff_mem.mpr (named ▸ List.mem_map_of_mem inMentions)) isNew
      · exact cross m member n isLast

/-- Two lists give the same names in the same order just if they have the same names and no name leads another one in
one list that leads it in the other. -/
theorem eraseDups_eq_iff (stands : mentions.Pairwise front) (othersStand : others.Pairwise behind)
    (asymm : ∀ m n, front m n → ¬front n m) (othersAsymm : ∀ m n, behind m n → ¬behind n m) :
    (mentions.map (·.name)).eraseDups = (others.map (·.name)).eraseDups ↔
      (∀ name, name ∈ mentions.map (·.name) ↔ name ∈ others.map (·.name)) ∧
        ∀ name other, ¬(Leads behind others name other ∧ Leads front mentions other name) := by
  have leading := pairwise_leads stands
  have othersLeading := pairwise_leads othersStand
  constructor
  · intro same
    refine ⟨fun name => by rw [← List.mem_eraseDups, same, List.mem_eraseDups], ?_⟩
    rintro name other ⟨leads, otherLeads⟩
    rw [← same] at othersLeading
    have nameIn := leads.mem
    rw [← same] at nameIn
    rcases eq_or_of_pairwise (leading.and othersLeading) nameIn otherLeads.mem with rfl | ⟨first, _⟩ | ⟨_, first⟩
    · exact otherLeads.asymm asymm otherLeads
    · exact otherLeads.asymm asymm first
    · exact leads.asymm othersAsymm first
  · rintro ⟨sameNames, noOvertaking⟩
    have perm : (mentions.map (·.name)).eraseDups.Perm (others.map (·.name)).eraseDups :=
      (List.perm_ext_iff_of_nodup (nodup_eraseDups _) (nodup_eraseDups _)).mpr fun name => by
        rw [List.mem_eraseDups, List.mem_eraseDups, sameNames]
    have leadingToo : (others.map (·.name)).eraseDups.Pairwise (Leads front mentions) := by
      have once := nodup_eraseDups (others.map (·.name))
      refine (othersLeading.and once).imp_of_mem fun {name other} nameIn otherIn ⟨leads, differs⟩ => ?_
      rcases eq_or_of_pairwise leading (perm.mem_iff.mpr nameIn) (perm.mem_iff.mpr otherIn) with same | first | first
      · exact absurd same differs
      · exact first
      · exact absurd ⟨leads, first⟩ (noOvertaking name other)
    exact perm.eq_of_pairwise (fun _ _ _ _ leads leadsToo => absurd leadsToo (leads.asymm asymm)) leading leadingToo

end

/-! ### Unresolved names -/

theorem exists_depth_lt (mentions : List Mention) : ∃ bound, ∀ m ∈ mentions, m.depth < bound := by
  induction mentions with
  | nil => exact ⟨0, fun m member => absurd member List.not_mem_nil⟩
  | cons first rest ih =>
    obtain ⟨bound, shallow⟩ := ih
    refine ⟨max bound (first.depth + 1), fun m member => ?_⟩
    rcases List.mem_cons.mp member with rfl | member
    · exact Nat.lt_of_lt_of_le (Nat.lt_succ_self _) (Nat.le_max_right ..)
    · exact Nat.lt_of_lt_of_le (shallow m member) (Nat.le_max_left ..)

theorem namesAt_eq_nil {mentions : List Mention} {bound : Nat} (shallow : ∀ m ∈ mentions, m.depth < bound) :
    namesAt bound mentions = [] := by
  have nothing : mentions.filter (fun m => m.taken ∧ m.depth = bound) = [] := by
    refine List.filter_eq_nil_iff.mpr fun m member holds => ?_
    exact absurd (of_decide_eq_true holds).2 (Nat.ne_of_lt (shallow m member))
  rw [namesAt, nothing, List.map_nil]

/-- The texture names of a text are written in its tokens, in order. -/
theorem Pipeline.mentions_written {text : String} {tokens : List Source.Token} {p : Pipeline}
    (lexed : Source.lex text = .ok tokens) (parsed : Pipeline.parse? text = .ok p) :
    p.mentions.Pairwise (·.offset < ·.offset) ∧
      ∀ m ∈ p.mentions, ∃ token tail, token :: tail <:+ tokens ∧ m.IsAt token tail := by
  have spans : Spans p.mentions tokens [] := (derives_of_parse? lexed parsed).spans
  refine ⟨spans.ascends (Source.lexes_of_lex lexed).ascends.1, fun m member => ?_⟩
  obtain ⟨token, tail, starts, _, isAt⟩ := spans.written m member
  exact ⟨token, tail, starts, isAt⟩

namespace Program

open Compile (Compiled Draft Job)

variable {text : String} {program : Program}

/-- The names of a compiled text are those that are taken, by how deep they are. -/
theorem exists_levels {p : Pipeline} {d : Draft} {jobs : List Job} (isDraft : Draft.IsDraftOf d jobs p) :
    ∃ bound, (∀ m ∈ p.mentions, m.depth < bound) ∧
      (Compiled.ofDraft d).patches.toList.map (·.name) = (levels bound p.mentions).map (·.name) := by
  have breadthFirst := Compile.breadthFirst_of_isDraft isDraft
  obtain ⟨order, isOrder⟩ : ∃ order, order = jobs.map (·.pipeline) := ⟨_, rfl⟩
  rw [← isOrder] at breadthFirst
  have compiled : ∀ q ∈ order, ∃ room instrs, Compile.IsReadAs room q instrs := fun q member =>
    Compile.exists_isReadAs_of_mem isDraft (isOrder ▸ member)
  obtain ⟨bound, shallow⟩ := exists_depth_lt (order.flatMap Pipeline.mentions)
  have shallowIn : ∀ q ∈ order, ∀ m ∈ q.mentions, m.depth < bound := fun q member m isMention =>
    shallow m (List.mem_flatMap.mpr ⟨q, member, isMention⟩)
  have first : p ∈ order := by
    rw [breadthFirst]
    exact List.mem_cons_self
  refine ⟨bound, shallowIn p first, ?_⟩
  have noneLeft : (order.flatMap fun q => namesAt bound q.mentions) = [] :=
    List.flatMap_eq_nil_iff.mpr fun q member => namesAt_eq_nil (shallowIn q member)
  rw [Compile.names_of_isDraft isDraft, ← isOrder, Compile.flatMap_namesAt_zero breadthFirst compiled bound, noneLeft,
    List.append_nil, levels, List.map_flatMap]
  rfl

/-- The unresolved names of a compiled text come by how many nested pipelines they are first taken in, and only then
in the order of the text. They are the names of the text in the order of their first mentions just if none of them is
in ignored arguments only, and none is mentioned in front of another one that is taken in fewer nested pipelines. -/
theorem unresolvedNames_eq_iff (compiled : compile text = .ok program) :
    ∃ tokens p, Source.lex text = .ok tokens ∧ Pipeline.parse? text = .ok p ∧
      p.mentions.Pairwise (·.offset < ·.offset) ∧
      (∀ m ∈ p.mentions, ∃ token tail, token :: tail <:+ tokens ∧ m.IsAt token tail) ∧
      (∃ listed : List Mention, listed.Perm (p.mentions.filter (·.taken)) ∧ listed.Pairwise Mention.Above ∧
        program.unresolvedNames = (listed.map (·.name)).eraseDups) ∧
      (program.unresolvedNames = (p.mentions.map (·.name)).eraseDups ↔
        (∀ m ∈ p.mentions, ∃ n ∈ p.mentions, n.taken ∧ n.name = m.name) ∧
        ∀ name other, ¬(Leads (·.offset < ·.offset) p.mentions name other ∧
          Leads Mention.Above (p.mentions.filter (·.taken)) other name)) := by
  obtain ⟨p, d, jobs, parsed, isDraft, rfl⟩ := exists_draft compiled
  obtain ⟨tokens, lexed, _⟩ := exists_of_bind_eq_ok parsed
  obtain ⟨ascends, written⟩ := Pipeline.mentions_written lexed parsed
  obtain ⟨bound, shallow, names⟩ := exists_levels isDraft
  have perm := perm_levels ascends shallow
  have above := pairwise_levels ascends bound
  have unresolved : unresolvedNames ⟨(Compiled.ofDraft d).code, (Compiled.ofDraft d).patches.toList,
      (Compiled.ofDraft d).patches.isEmpty⟩ = ((levels bound p.mentions).map (·.name)).eraseDups := by
    rw [unresolvedNames, ← names]
    split
    · next empty =>
      rw [Array.isEmpty_iff] at empty
      rw [empty]
      rfl
    · rfl
  refine ⟨tokens, p, lexed, parsed, ascends, written, ⟨_, perm, above, unresolved⟩, ?_⟩
  have leads_iff : ∀ name other, Leads Mention.Above (levels bound p.mentions) name other ↔
      Leads Mention.Above (p.mentions.filter (·.taken)) name other := by
    intro name other
    simp only [Leads, perm.mem_iff]
  have taken_iff : (∀ name, name ∈ (levels bound p.mentions).map (·.name) ↔ name ∈ p.mentions.map (·.name)) ↔
      ∀ m ∈ p.mentions, ∃ n ∈ p.mentions, n.taken ∧ n.name = m.name := by
    simp only [List.mem_map, perm.mem_iff, List.mem_filter]
    constructor
    · intro same m member
      obtain ⟨n, ⟨isMention, taken⟩, named⟩ := (same m.name).mpr ⟨m, member, rfl⟩
      exact ⟨n, isMention, taken, named⟩
    · intro taken name
      constructor
      · rintro ⟨m, ⟨member, _⟩, named⟩
        exact ⟨m, member, named⟩
      · rintro ⟨m, member, rfl⟩
        obtain ⟨n, isMention, isTaken, named⟩ := taken m member
        exact ⟨n, ⟨isMention, isTaken⟩, named⟩
  rw [unresolved, eraseDups_eq_iff above ascends (fun _ _ => Mention.Above.asymm) fun _ _ => Nat.lt_asymm, taken_iff]
  simp only [leads_iff]

/-- A pipeline with a name in a nested pipeline and one behind it. -/
def layered : String := "stone |> overlay(tex(moss |> brighten)) |> mask(dirt)"

theorem compile_layered : compile layered = .ok ⟨#[1, 0, 0, 0, 0, 30, 1, 19, 0, 0, 7, 0, 0, 31, 0, 0, 0, 0, 0, 1, 0, 0,
    0, 0, 16, 0], [⟨2, "stone"⟩, ⟨15, "dirt"⟩, ⟨21, "moss"⟩], false⟩ := by
  decide +kernel

/-- It names its textures in this order. -/
theorem mentions_layered : ∃ p, Pipeline.parse? layered = .ok p ∧
    p.mentions = [⟨"stone", 0, 0, true⟩, ⟨"moss", 1, 21, true⟩, ⟨"dirt", 0, 48, true⟩] := by
  have mentions : (Pipeline.parse? layered).toOption.map Pipeline.mentions =
      some [⟨"stone", 0, 0, true⟩, ⟨"moss", 1, 21, true⟩, ⟨"dirt", 0, 48, true⟩] := by decide +kernel
  cases parsed : Pipeline.parse? layered with
  | error e =>
    rw [parsed] at mentions
    cases mentions
  | ok p =>
    rw [parsed] at mentions
    exact ⟨p, rfl, Option.some.inj mentions⟩

theorem unresolvedNames_eq_iff_layered : ∃ program p, compile layered = .ok program ∧
    Pipeline.parse? layered = .ok p ∧
    (program.unresolvedNames = (p.mentions.map (·.name)).eraseDups ↔
      (∀ m ∈ p.mentions, ∃ n ∈ p.mentions, n.taken ∧ n.name = m.name) ∧
      ∀ name other, ¬(Leads (·.offset < ·.offset) p.mentions name other ∧
        Leads Mention.Above (p.mentions.filter (·.taken)) other name)) ∧
    Leads (·.offset < ·.offset) p.mentions "moss" "dirt" ∧
    Leads Mention.Above (p.mentions.filter (·.taken)) "dirt" "moss" := by
  obtain ⟨_, p, _, parsed, _, _, _, iff⟩ := unresolvedNames_eq_iff compile_layered
  obtain ⟨q, parsedToo, mentions⟩ := mentions_layered
  cases parsedToo.symm.trans parsed
  refine ⟨_, p, compile_layered, parsed, iff, ?_⟩
  rw [mentions]
  decide

/-- But its unresolved names are in another order. -/
theorem unresolvedNames_layered : ∃ program p, compile layered = .ok program ∧ program.linked = false ∧
    Pipeline.parse? layered = .ok p ∧ (p.mentions.map (·.name)).eraseDups = ["stone", "moss", "dirt"] ∧
    program.unresolvedNames = ["stone", "dirt", "moss"] := by
  obtain ⟨p, parsed, mentions⟩ := mentions_layered
  refine ⟨_, p, compile_layered, rfl, parsed, ?_, by decide⟩
  rw [mentions]
  decide

end Program

end TextureLoom
