import TextureLoom.Proofs.Bytecode.Rewriting
import TextureLoom.Proofs.Bytecode.Roaming
import TextureLoom.Proofs.Compile.Reading

set_option autoImplicit false

namespace TextureLoom.Bytecode

open Reach (follow walk walkBlock walkProgram)

/-- The block in a range of the program, which is an offset and a length. -/
def Block.within (code : Array UInt8) (range : Nat × Nat) : Block := Block.of code range.1 (range.1 + range.2)

/-- An operand of the block names the range. -/
def Block.Names (b : Block) (range : Nat × Nat) : Prop :=
  ∃ l ∈ b.instrs, range ∈ l.instr.sources.filterMap Operand.block?

/-- The ranges of the blocks that a program can come to, whichever way: all of it, and what such a block names. -/
inductive Reaches (code : Array UInt8) : Nat × Nat → Prop where
  | whole : Reaches code (0, code.size)
  | named {range inner : Nat × Nat} : Reaches code range → (Block.within code range).Names inner → Reaches code inner

theorem Block.of_whole (code : Array UInt8) : Block.of code 0 code.size = Block.within code (0, code.size) := by
  rw [within, Nat.zero_add]

/-- What is done with an instruction on a walk. -/
def Reach.met (strict : Bool) (code : Array UInt8) (descend : Nat × Nat → Trail → Except Malformed Trail)
    (trail : Trail) (l : Located) : Except Malformed Trail :=
  (l.instr.sources.filterMap Operand.block?).foldlM (follow strict code descend) (trail.record l.instr)

theorem Reach.walkBlock_eq (strict : Bool) (code : Array UInt8)
    (descend : Nat × Nat → Trail → Except Malformed Trail) (block : Block) (trail : Trail) :
    walkBlock strict code descend block trail =
      (block.instrs.foldlM (met strict code descend) trail >>= fun trail =>
        match block.finish with
        | .ok _ => .ok trail
        | .error e => if strict then .error (.undecodable e) else .ok trail) := rfl

/-- The second trail has all that the first has. -/
structure Trail.Extends (first second : Trail) : Prop where
  met : first.Grows second
  entered : ∀ range ∈ first.entered, range ∈ second.entered

namespace Trail.Extends

variable {first second third : Trail}

theorem refl (trail : Trail) : trail.Extends trail := ⟨.refl trail, fun _ entered => entered⟩

theorem trans (former : first.Extends second) (latter : second.Extends third) : first.Extends third :=
  ⟨former.met.trans latter.met, fun range entered => latter.entered range (former.entered range entered)⟩

end Trail.Extends

/-- The block has been gone through to its end. -/
structure Trail.Covers (trail : Trail) (b : Block) : Prop where
  ends : ∃ position, b.finish = .ok position
  met : ∀ l ∈ b.instrs, l.instr ∈ trail.met
  entered : ∀ range, b.Names range → range ∈ trail.entered

theorem Trail.Covers.extend {first second : Trail} {b : Block} (covers : first.Covers b)
    (extend : first.Extends second) : second.Covers b where
  ends := covers.ends
  met := fun l member => extend.met _ (covers.met l member)
  entered := fun range named => extend.entered range (covers.entered range named)

/-- All that has been entered has been gone through, but for the blocks under way. -/
def Trail.Settled (code : Array UInt8) (active : List (Nat × Nat)) (trail : Trail) : Prop :=
  ∀ range ∈ trail.entered, range ∈ active ∨ trail.Covers (Block.within code range)

/-- What a part of a walk leaves: nothing is lost, and what it entered it has gone through. -/
structure Trail.Leads (code : Array UInt8) (active : List (Nat × Nat)) (first second : Trail) : Prop where
  extend : first.Extends second
  settled : second.Settled code active

section

variable {code : Array UInt8} {descend : Nat × Nat → Trail → Except Malformed Trail} {active : List (Nat × Nat)}
  {trail later : Trail}

theorem leads_follow
    (deeper : ∀ range trail later, descend range trail = .ok later → trail.Settled code active →
      trail.Leads code active later ∧ range ∈ later.entered)
    {range : Nat × Nat} (followed : follow true code descend trail range = .ok later)
    (settled : trail.Settled code active) : trail.Leads code active later ∧ range ∈ later.entered := by
  unfold follow at followed
  split at followed
  · next before =>
    cases followed
    exact ⟨⟨.refl trail, settled⟩, List.contains_iff_mem.mp before⟩
  · split at followed
    · cases followed
    · exact deeper range trail later followed settled

/-- Steps that each lead on and leave something for good leave it for all of them. -/
theorem leads_foldlM {α : Type} {f : Trail → α → Except Malformed Trail} (done : α → Trail → Prop)
    (each : ∀ a trail later, f trail a = .ok later → trail.Settled code active →
      trail.Leads code active later ∧ done a later)
    (stays : ∀ a (first second : Trail), done a first → first.Extends second → done a second) (items : List α) :
    ∀ {trail : Trail}, items.foldlM f trail = .ok later → trail.Settled code active →
      trail.Leads code active later ∧ ∀ a ∈ items, done a later := by
  induction items with
  | nil =>
    intro trail walked settled
    cases walked
    exact ⟨⟨.refl _, settled⟩, fun a member => absurd member List.not_mem_nil⟩
  | cons a rest ih =>
    intro trail walked settled
    rw [List.foldlM_cons] at walked
    obtain ⟨middle, first, others⟩ := exists_of_bind_eq_ok walked
    obtain ⟨leads, here⟩ := each a trail middle first settled
    obtain ⟨onward, all⟩ := ih others leads.settled
    refine ⟨⟨leads.extend.trans onward.extend, onward.settled⟩, ?_⟩
    intro b member
    rcases List.mem_cons.mp member with rfl | inRest
    · exact stays b middle later here onward.extend
    · exact all b inRest

theorem Trail.extends_record (trail : Trail) (i : Instr Operand) : trail.Extends (trail.record i) :=
  ⟨trail.grows_record i, fun _ entered => entered⟩

theorem Trail.Settled.extend (settled : trail.Settled code active) (extend : trail.Extends later)
    (same : later.entered = trail.entered) : later.Settled code active := by
  intro range entered
  rw [same] at entered
  exact (settled range entered).imp id fun covers => covers.extend extend

theorem leads_walkBlock
    (deeper : ∀ range trail later, descend range trail = .ok later → trail.Settled code active →
      trail.Leads code active later ∧ range ∈ later.entered)
    {block : Block} (walked : walkBlock true code descend block trail = .ok later)
    (settled : trail.Settled code active) : trail.Leads code active later ∧ later.Covers block := by
  rw [Reach.walkBlock_eq] at walked
  obtain ⟨reached, steps, ended⟩ := exists_of_bind_eq_ok walked
  obtain ⟨leads, all⟩ := leads_foldlM
    (fun l trail => l.instr ∈ trail.met ∧ ∀ range ∈ l.instr.sources.filterMap Operand.block?,
      range ∈ trail.entered)
    (fun l trail later met settled => by
      have recorded := trail.extends_record l.instr
      obtain ⟨leads, entered⟩ := leads_foldlM (fun range trail => range ∈ trail.entered)
        (fun range trail later followed settled => leads_follow deeper followed settled)
        (fun range first second entered extend => extend.entered range entered) _ met (settled.extend recorded rfl)
      exact ⟨⟨recorded.trans leads.extend, leads.settled⟩, leads.extend.met _ (trail.mem_record l.instr), entered⟩)
    (fun l first second before extend =>
      ⟨extend.met _ before.1, fun range named => extend.entered range (before.2 range named)⟩) block.instrs steps
    settled
  cases finish : block.finish with
  | error e => simp [finish] at ended
  | ok position =>
    rw [finish] at ended
    cases ended
    refine ⟨leads, ⟨position, finish⟩, fun l member => (all l member).1, ?_⟩
    rintro range ⟨l, member, named⟩
    exact (all l member).2 range named

end

/-- A walk that finds nothing malformed goes through the block and all that it reaches. -/
theorem leads_walk {code : Array UInt8} {room : Nat} {later : Trail} :
    ∀ {active : List (Nat × Nat)} {block : Block} {trail : Trail}, walk true code room block trail = .ok later →
      trail.Settled code active → trail.Leads code active later ∧ later.Covers block := by
  -- On the levels left: a block under way is gone through once the walk comes back from it.
  induction room generalizing later with
  | zero => exact fun walked settled => leads_walkBlock (fun _ _ _ deep => by cases deep) walked settled
  | succ room ih =>
    intro active block trail walked settled
    refine leads_walkBlock (fun range trail later descended settled => ?_) walked settled
    have enters : trail.Extends { trail with entered := range :: trail.entered } :=
      ⟨.refl trail, fun _ before => List.mem_cons_of_mem range before⟩
    have underWay : ({ trail with entered := range :: trail.entered } : Trail).Settled code (range :: active) := by
      intro other entered
      rcases List.mem_cons.mp entered with rfl | before
      · exact .inl List.mem_cons_self
      · exact (settled other before).imp (List.mem_cons_of_mem range) fun covers => covers.extend enters
    obtain ⟨leads, covers⟩ := ih descended underWay
    refine ⟨⟨enters.trans leads.extend, ?_⟩, leads.extend.entered range List.mem_cons_self⟩
    intro other entered
    rcases leads.settled other entered with under | covered
    · rcases List.mem_cons.mp under with rfl | outer
      · exact .inr covers
      · exact .inl outer
    · exact .inr covered

/-- A walk of a program that finds nothing malformed goes through all that the program reaches. -/
theorem covers_of_reaches {code : Array UInt8} {trail : Trail} (walked : walkProgram true code = .ok trail)
    {range : Nat × Nat} (reaches : Reaches code range) : trail.Covers (Block.within code range) := by
  have nothing : ({} : Trail).Settled code [] := fun _ entered => absurd entered List.not_mem_nil
  obtain ⟨leads, covers⟩ := leads_walk walked nothing
  induction reaches with
  | whole =>
    rw [← Block.of_whole]
    exact covers
  | named _ named ih =>
    rcases leads.settled _ (ih.entered _ named) with under | covers
    · exact absurd under List.not_mem_nil
    · exact covers

/-- All that a trail has comes from blocks that the program reaches. -/
structure Trail.Grounded (code : Array UInt8) (trail : Trail) : Prop where
  entered : ∀ range ∈ trail.entered, Reaches code range
  met : ∀ i ∈ trail.met, ∃ range, Reaches code range ∧ ∃ l ∈ (Block.within code range).instrs, l.instr = i

theorem foldlM_keeps {α β : Type} {f : β → α → Except Malformed β} {holds : β → Prop} (items : List α)
    (each : ∀ a ∈ items, ∀ b c, holds b → f b a = .ok c → holds c) :
    ∀ {b c : β}, holds b → items.foldlM f b = .ok c → holds c := by
  induction items with
  | nil =>
    intro b c before walked
    cases walked
    exact before
  | cons a rest ih =>
    intro b c before walked
    rw [List.foldlM_cons] at walked
    obtain ⟨middle, first, others⟩ := exists_of_bind_eq_ok walked
    have reached := each a List.mem_cons_self b middle before first
    exact ih (fun other member => each other (List.mem_cons_of_mem a member)) reached others

theorem grounded_walkBlock {code : Array UInt8} {descend : Nat × Nat → Trail → Except Malformed Trail}
    (deeper : ∀ range trail later, Reaches code range → trail.Grounded code → descend range trail = .ok later →
      later.Grounded code)
    {range : Nat × Nat} (reaches : Reaches code range) {trail later : Trail} (grounded : trail.Grounded code)
    (walked : walkBlock true code descend (Block.within code range) trail = .ok later) : later.Grounded code := by
  rw [Reach.walkBlock_eq] at walked
  obtain ⟨reached, steps, ended⟩ := exists_of_bind_eq_ok walked
  have kept : reached.Grounded code := by
    refine foldlM_keeps _ (fun l member trail later grounded met => ?_) grounded steps
    have recorded : (trail.record l.instr).Grounded code := by
      refine ⟨grounded.entered, fun i isMet => ?_⟩
      rcases Array.mem_push.mp isMet with before | rfl
      · exact grounded.met i before
      · exact ⟨range, reaches, l, member, rfl⟩
    refine foldlM_keeps _ (fun inner named trail later grounded followed => ?_) recorded met
    unfold follow at followed
    split at followed
    · cases followed
      exact grounded
    · split at followed
      · cases followed
      · exact deeper inner trail later (.named reaches ⟨l, member, named⟩) grounded followed
  cases finish : (Block.within code range).finish with
  | error e => simp [finish] at ended
  | ok position =>
    rw [finish] at ended
    cases ended
    exact kept

theorem grounded_walk {code : Array UInt8} {room : Nat} :
    ∀ {range : Nat × Nat} {trail later : Trail}, Reaches code range → trail.Grounded code →
      walk true code room (Block.within code range) trail = .ok later → later.Grounded code := by
  induction room with
  | zero =>
    intro range trail later reaches grounded walked
    exact grounded_walkBlock (fun _ _ _ _ _ deep => by cases deep) reaches grounded walked
  | succ room ih =>
    intro range trail later reaches grounded walked
    refine grounded_walkBlock (fun inner trail later reaches grounded descended => ?_) reaches grounded walked
    have enters : ({ trail with entered := inner :: trail.entered } : Trail).Grounded code := by
      refine ⟨fun other entered => ?_, grounded.met⟩
      rcases List.mem_cons.mp entered with rfl | before
      · exact reaches
      · exact grounded.entered other before
    exact ih reaches enters descended

theorem grounded_of_walkProgram {code : Array UInt8} {trail : Trail} (walked : walkProgram true code = .ok trail) :
    trail.Grounded code := by
  rw [Reach.walkProgram, Block.of_whole] at walked
  have nothing : ({} : Trail).Grounded code :=
    ⟨fun _ entered => absurd entered List.not_mem_nil, fun _ met => absurd met (Array.not_mem_empty _)⟩
  exact grounded_walk .whole nothing walked

/-- Two walks side by side: where the first goes on the second does, with what corresponds. -/
theorem foldlM_transfer {α β γ δ : Type} {f : β → α → Except Malformed β} {g : δ → γ → Except Malformed δ}
    {item : α → γ} {state : β → δ} (items : List α)
    (each : ∀ a ∈ items, ∀ b c, f b a = .ok c → g (state b) (item a) = .ok (state c)) :
    ∀ {b c : β}, items.foldlM f b = .ok c → (items.map item).foldlM g (state b) = .ok (state c) := by
  induction items with
  | nil =>
    intro b c walked
    cases walked
    rfl
  | cons a rest ih =>
    intro b c walked
    rw [List.foldlM_cons] at walked
    obtain ⟨middle, first, others⟩ := exists_of_bind_eq_ok walked
    rw [List.map_cons, List.foldlM_cons, each a List.mem_cons_self b middle first]
    exact ih (fun other member => each other (List.mem_cons_of_mem a member)) others

def Trail.renumber (number : Nat → Nat → Nat) (trail : Trail) : Trail :=
  { trail with met := trail.met.map (Instr.map (Operand.renumber number)) }

@[simp] theorem Operand.block?_renumber (number : Nat → Nat → Nat) (o : Operand) :
    (o.renumber number).block? = o.block? := by
  unfold renumber block?
  cases o.origin <;> rfl

theorem Located.blocks_renumber (number : Nat → Nat → Nat) (l : Located) :
    (l.renumber number).instr.sources.filterMap Operand.block? = l.instr.sources.filterMap Operand.block? := by
  have same : Operand.block? ∘ Operand.renumber number = Operand.block? := funext (Operand.block?_renumber number)
  rw [renumber, Instr.sources_map, List.filterMap_map, same]

theorem Block.names_renumber {number : Nat → Nat → Nat} {b : Block} {range : Nat × Nat} :
    (b.renumber number).Names range ↔ b.Names range := by
  constructor
  · rintro ⟨l', member, named⟩
    obtain ⟨l, inBlock, rfl⟩ := List.mem_map.mp member
    exact ⟨l, inBlock, l.blocks_renumber number ▸ named⟩
  · rintro ⟨l, member, named⟩
    exact ⟨l.renumber number, List.mem_map_of_mem member, (l.blocks_renumber number).symm ▸ named⟩

section

variable {code code' : Array UInt8} {number : Nat → Nat → Nat} {trail later : Trail}

/-- A walk goes on in another program of the same size as it does in the first, where the blocks that it goes on into
are the same but for ids. -/
theorem transfer_walkBlock (size : code'.size = code.size) (strict : Bool)
    {descend descend' : Nat × Nat → Trail → Except Malformed Trail} {block : Block}
    (deeper : ∀ range, block.Names range → ∀ trail later, descend range trail = .ok later →
      descend' range (trail.renumber number) = .ok (later.renumber number))
    (walked : walkBlock true code descend block trail = .ok later) :
    walkBlock strict code' descend' (block.renumber number) (trail.renumber number) = .ok (later.renumber number) := by
  rw [Reach.walkBlock_eq] at walked ⊢
  obtain ⟨reached, steps, ended⟩ := exists_of_bind_eq_ok walked
  have moved : (block.renumber number).instrs.foldlM (Reach.met strict code' descend') (trail.renumber number) =
      .ok (reached.renumber number) := by
    refine foldlM_transfer _ (fun l member trail later met => ?_) steps
    have recorded : (trail.renumber number).record (l.renumber number).instr =
        (trail.record l.instr).renumber number := by
      simp [Trail.record, Trail.renumber, Located.renumber]
    rw [Reach.met, l.blocks_renumber, recorded, ← List.map_id (l.instr.sources.filterMap _)]
    refine foldlM_transfer _ (fun range named trail later followed => ?_) met
    unfold follow at followed ⊢
    rw [size]
    split at followed
    · next before =>
      cases followed
      exact if_pos before
    · next fresh =>
      split at followed
      · cases followed
      · next inside =>
        have stillFresh : ¬(trail.renumber number).entered.contains range := fresh
        rw [id_eq, if_neg stillFresh, if_neg inside]
        exact deeper range ⟨l, member, named⟩ trail later followed
  cases finish : block.finish with
  | error e => simp [finish] at ended
  | ok position =>
    rw [finish] at ended
    cases ended
    have sameFinish : (block.renumber number).finish = .ok position := finish
    simp only [moved, sameFinish]
    rfl

/-- What a program reaches is the same in another program but for ids. -/
structure Renumbers (number : Nat → Nat → Nat) (code code' : Array UInt8) : Prop where
  size : code'.size = code.size
  blocks : ∀ range, Reaches code range → Block.within code' range = (Block.within code range).renumber number

theorem transfer_walk (renumbers : Renumbers number code code') (strict : Bool) {room : Nat} :
    ∀ {range : Nat × Nat} {trail later : Trail}, Reaches code range →
      walk true code room (Block.within code range) trail = .ok later →
        walk strict code' room (Block.within code' range) (trail.renumber number) = .ok (later.renumber number) := by
  induction room with
  | zero =>
    intro range trail later reaches walked
    rw [renumbers.blocks range reaches]
    exact transfer_walkBlock renumbers.size strict (fun _ _ _ _ deep => by cases deep) walked
  | succ room ih =>
    intro range trail later reaches walked
    rw [renumbers.blocks range reaches]
    refine transfer_walkBlock renumbers.size strict (fun inner named trail later descended => ?_) walked
    exact ih (.named reaches named) descended

/-- The walk of a program finds the same in another that is the same but for ids. -/
theorem Renumbers.walkProgram_eq (renumbers : Renumbers number code code') (strict : Bool)
    (walked : walkProgram true code = .ok trail) : walkProgram strict code' = .ok (trail.renumber number) := by
  rw [walkProgram, Block.of_whole] at walked ⊢
  have start : ({} : Trail).renumber number = {} := by simp [Trail.renumber]
  rw [renumbers.size, ← start]
  exact transfer_walk renumbers strict .whole walked

theorem Renumbers.reaches_iff (renumbers : Renumbers number code code') {range : Nat × Nat} :
    Reaches code' range ↔ Reaches code range := by
  constructor
  · intro reaches
    induction reaches with
    | whole => exact renumbers.size ▸ .whole
    | named _ named ih =>
      rw [renumbers.blocks _ ih, Block.names_renumber] at named
      exact .named ih named
  · intro reaches
    induction reaches with
    | whole => exact renumbers.size ▸ .whole
    | named before named ih =>
      refine .named ih ?_
      rw [renumbers.blocks _ before, Block.names_renumber]
      exact named

end

theorem Operand.renumber_self (o : Operand) : o.renumber (fun _ id => id) = o := by
  obtain ⟨field, origin⟩ := o
  cases origin <;> rfl

theorem Instr.map_self {σ : Type} {f : σ → σ} (same : ∀ s, f s = s) (i : Instr σ) : i.map f = i := by
  rw [funext same]
  exact i.place_self _ 0

theorem Located.renumber_self (l : Located) : l.renumber (fun _ id => id) = l :=
  congrArg (Located.mk l.position) (Instr.map_self Operand.renumber_self l.instr)

theorem Trail.renumber_self (trail : Trail) : trail.renumber (fun _ id => id) = trail := by
  have same : Instr.map (Operand.renumber fun _ id => id) = id := funext (Instr.map_self Operand.renumber_self)
  rw [renumber, same, Array.map_id]

theorem renumbers_self (code : Array UInt8) : Renumbers (fun _ id => id) code code where
  size := rfl
  blocks := by
    intro range _
    have same : Located.renumber (fun _ id => id) = id := funext Located.renumber_self
    rw [Block.renumber, same, List.map_id]

/-- Where nothing is malformed nothing is passed over. -/
theorem reachable_eq_of_walkProgram {code : Array UInt8} {trail : Trail} (walked : walkProgram true code = .ok trail) :
    reachable code = trail.met.toList := by
  rw [reachable, (renumbers_self code).walkProgram_eq false walked, Trail.renumber_self]

end TextureLoom.Bytecode
