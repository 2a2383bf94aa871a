import TextureLoom.Proofs.Repeats
import TextureLoom.Proofs.Bytecode.Roaming

set_option autoImplicit false

namespace TextureLoom.Bytecode

/-- An instruction met on a tour: the ids named in front of it, those that it names itself, and those used for it in
order, the blocks included that are entered for it. -/
structure Stop where
  before : List Nat
  own : List Nat
  used : List Nat
deriving DecidableEq, Repr

/-- Of the ids that are new with an instruction, its own are used first, in the order in which it names them. -/
def Stop.Prompt (stop : Stop) : Prop := fresh stop.before stop.own <+: fresh stop.before stop.used

/-- An instruction that names the first ids of all uses the first of them first. -/
def Stop.Leading (stop : Stop) : Prop := stop.before = [] → stop.own.take 1 <+: stop.used

instance (stop : Stop) : Decidable stop.Prompt := inferInstanceAs (Decidable (_ <+: _))

instance (stop : Stop) : Decidable stop.Leading := inferInstanceAs (Decidable (_ → _ <+: _))

/-- A part of a tour: the ids named on it, each where an instruction is met, the ids used on it, each where an operand
is loaded, and the stops made. -/
structure Leg where
  named : List Nat
  used : List Nat
  stops : List Stop

namespace Leg

/-- A leg from where the ids `known` are named, of which those `owed` have yet to be used, uses those and all that it
names. It uses what is new in the order in which it names it just if its stops see to that. -/
structure Fair (leg : Leg) (known owed : List Nat) : Prop where
  owing : ∀ id ∈ owed, id ∈ known
  uses : leg.used.Perm (owed ++ leg.named)
  prompt : (∀ stop ∈ leg.stops, stop.Prompt) ↔ fresh known leg.used = fresh known leg.named
  leading : known = [] → ((∀ stop ∈ leg.stops, stop.Leading) ↔ leg.used.head? = leg.named.head?)
  later : ∀ stop ∈ leg.stops, stop.before = [] → known = []

variable {leg second : Leg} {known owed own more : List Nat}

theorem fair_empty (known : List Nat) : Fair ⟨[], [], []⟩ known [] where
  owing := by simp
  uses := .refl _
  prompt := by simp
  leading := by simp
  later := by simp

/-- To use an id that was named before is nothing new. -/
theorem fair_use {id : Nat} (named : id ∈ known) : Fair ⟨[], [id], []⟩ known [id] where
  owing := by simpa using named
  uses := .refl _
  prompt := by
    have old : fresh known [id] = [] := by
      apply List.eq_nil_iff_forall_not_mem.mpr
      intro other new
      have isId := List.mem_singleton.mp (mem_fresh.mp new).1
      exact (mem_fresh.mp new).2 (isId ▸ named)
    simp [old, fresh_nil_right]
  leading := fun none => absurd (none ▸ named) List.not_mem_nil
  later := by simp

namespace Fair

/-- Once a leg is over, what was used on it tells apart the new from the old as well as what was named. -/
theorem mem_append_used (fair : leg.Fair known owed) (id : Nat) : id ∈ known ++ leg.used ↔ id ∈ known ++ leg.named := by
  have before := fair.owing id
  rw [List.mem_append, List.mem_append, fair.uses.mem_iff, List.mem_append]
  tauto

theorem length_fresh (fair : leg.Fair known owed) :
    (fresh known leg.used).length = (fresh known leg.named).length := by
  apply length_fresh_congr
  intro id new
  have same := fair.mem_append_used id
  simpa [new] using same

theorem used_eq_nil_iff (fair : leg.Fair [] owed) : leg.used = [] ↔ leg.named = [] := by
  have none : owed = [] := List.eq_nil_iff_forall_not_mem.mpr fun id member => List.not_mem_nil (fair.owing id member)
  have uses := fair.uses
  rw [none, List.nil_append] at uses
  exact ⟨fun unused => List.nil_perm.mp (unused ▸ uses), fun unnamed => List.perm_nil.mp (unnamed ▸ uses)⟩

/-- Two legs in a row are in order just if each of them is. -/
theorem append (fair : leg.Fair known owed) (latter : second.Fair (known ++ leg.named) more)
    (owing : ∀ id ∈ more, id ∈ known) :
    Fair ⟨leg.named ++ second.named, leg.used ++ second.used, leg.stops ++ second.stops⟩ known (owed ++ more) where
  owing := by
    intro id member
    exact (List.mem_append.mp member).elim (fair.owing id) (owing id)
  uses := by
    have both := fair.uses.append latter.uses
    apply both.trans
    rw [List.append_assoc, List.append_assoc]
    apply List.Perm.append_left
    rw [← List.append_assoc, ← List.append_assoc]
    exact List.perm_append_comm.append_right _
  prompt := by
    have behind : fresh (known ++ leg.used) second.used = fresh (known ++ leg.named) second.used :=
      fresh_congr fair.mem_append_used _
    have split : fresh known (leg.used ++ second.used) = fresh known (leg.named ++ second.named) ↔
        fresh known leg.used = fresh known leg.named ∧
          fresh (known ++ leg.named) second.used = fresh (known ++ leg.named) second.named := by
      rw [fresh_append, fresh_append, behind]
      exact ⟨fun same => List.append_inj same fair.length_fresh, fun ⟨first, rest⟩ => by rw [first, rest]⟩
    rw [split, ← fair.prompt, ← latter.prompt, List.forall_mem_append]
  leading := by
    rintro rfl
    rw [List.forall_mem_append, fair.leading rfl, List.head?_append, List.head?_append]
    by_cases unnamed : leg.named = []
    · have unused := fair.used_eq_nil_iff.mpr unnamed
      have rest := latter.leading (by rw [unnamed, List.append_nil])
      rw [unused, unnamed, rest]
      simp
    · -- Something was named on the first leg, so that the second cannot come first any more.
      have unaffected : ∀ stop ∈ second.stops, stop.Leading := by
        intro stop member none
        have empty := latter.later stop member none
        rw [List.nil_append] at empty
        exact absurd empty unnamed
      obtain ⟨other, _, named⟩ := List.exists_cons_of_ne_nil unnamed
      obtain ⟨id, _, used⟩ := List.exists_cons_of_ne_nil (mt fair.used_eq_nil_iff.mp unnamed)
      rw [named, used, and_iff_left unaffected]
      simp
  later := by
    intro stop member none
    rcases List.mem_append.mp member with first | rest
    · exact fair.later stop first none
    · exact (List.append_eq_nil_iff.mp (latter.later stop rest none)).1

/-- An instruction names its ids in front of what its operands name, and has used them once they are loaded. -/
theorem meet (fair : leg.Fair (known ++ own) own) :
    Fair ⟨own ++ leg.named, leg.used, leg.stops ++ [⟨known, own, leg.used⟩]⟩ known [] where
  owing := by simp
  uses := fair.uses
  prompt := by
    rw [List.forall_mem_append, List.forall_mem_singleton, fair.prompt, fresh_append, Stop.Prompt]
    constructor
    · rintro ⟨same, leads⟩
      rw [fresh_eq_append leads, same]
    · intro whole
      have leads : fresh known own <+: fresh known leg.used := ⟨_, whole.symm⟩
      rw [fresh_eq_append leads] at whole
      exact ⟨List.append_cancel_left whole, leads⟩
  leading := by
    rintro rfl
    rw [List.forall_mem_append, List.forall_mem_singleton]
    cases own with
    | nil =>
      rw [fair.leading rfl]
      simp [Stop.Leading]
    | cons id rest =>
      have unaffected : ∀ stop ∈ leg.stops, stop.Leading := fun stop member none =>
        absurd (fair.later stop member none) (List.cons_ne_nil id rest)
      have first : [id] <+: leg.used ↔ leg.used.head? = some id := by
        cases leg.used <;> simp [eq_comm]
      rw [and_iff_right unaffected]
      simp [Stop.Leading, first]
  later := by
    intro stop member none
    rcases List.mem_append.mp member with inside | this
    · exact (List.append_eq_nil_iff.mp (fair.later stop inside none)).1
    · rw [List.mem_singleton.mp this] at none
      exact none

end Fair

end Leg

/-- A walk that loads operands where it follows them: its trail, the ids used so far and the stops made. -/
structure Tour where
  trail : Trail := {}
  used : List Nat := []
  stops : List Stop := []

/-- The tour when it has entered a block. -/
def Tour.enter (tour : Tour) (range : Nat × Nat) : Tour :=
  { tour with trail := { tour.trail with entered := range :: tour.trail.entered } }

namespace Reach

variable (code : Array UInt8) (descend : Nat × Nat → Tour → Tour)

/-- Loads an operand: uses its texture, or follows its block as `visit` does. -/
def use (tour : Tour) (operand : Operand) : Tour :=
  match operand.origin with
  | .texture id => { tour with used := tour.used ++ [id] }
  | .block offset length =>
    if tour.trail.entered.contains (offset, length) then tour
    else if length = 0 ∨ code.size < offset + length then tour
    else descend (offset, length) tour

/-- Meets an instruction, loads its operands and notes the stop. -/
def attend (tour : Tour) (i : Instr Operand) : Tour :=
  let after := i.sources.foldl (use code descend) { tour with trail := tour.trail.record i }
  { after with stops := after.stops ++ [⟨tour.trail.ids, i.ids, after.used.drop tour.used.length⟩] }

/-- Attends the instructions of a block, as far as they can be decoded. -/
def tourBlock (block : Block) (tour : Tour) : Tour :=
  block.instrs.foldl (fun tour located => attend code descend tour located.instr) tour

/-- Tours a block and all that it reaches, as `roam` walks it. -/
def tour : Nat → Nat × Nat → Tour → Tour
  | 0, _, start => start
  | room + 1, range, start =>
    tourBlock code (tour room) (Block.of code range.1 (range.1 + range.2)) (start.enter range)

/-- The tour of a whole program. -/
def toured : Tour := tourBlock code (tour code depthLimit) (Block.of code 0 code.size) {}

variable {code descend} {walk : Nat × Nat → Trail → Trail}

theorem trail_use (deeper : ∀ range tour, (descend range tour).trail = walk range tour.trail) (tour : Tour)
    (operand : Operand) : (use code descend tour operand).trail = visit code walk tour.trail operand := by
  cases origin : operand.origin with
  | texture id => simp [use, visit, Operand.block?, origin]
  | block offset length =>
    simp only [use, visit, Operand.block?, origin, apply_ite Tour.trail, deeper]

theorem trail_attend (deeper : ∀ range tour, (descend range tour).trail = walk range tour.trail) (tour : Tour)
    (i : Instr Operand) : (attend code descend tour i).trail = meet code walk tour.trail i :=
  (List.foldl_hom Tour.trail fun tour operand => (trail_use deeper tour operand).symm).symm

theorem trail_tourBlock (deeper : ∀ range tour, (descend range tour).trail = walk range tour.trail) (block : Block)
    (tour : Tour) : (tourBlock code descend block tour).trail = roamBlock code walk block tour.trail :=
  (List.foldl_hom Tour.trail fun tour located => (trail_attend deeper tour located.instr).symm).symm

theorem trail_tour (room : Nat) (range : Nat × Nat) (start : Tour) :
    (tour code room range start).trail = roam code room range start.trail := by
  induction room generalizing range start with
  | zero => rfl
  | succ room ih => exact trail_tourBlock ih _ _

/-- A tour goes where the walk goes. -/
theorem trail_toured : (toured code).trail = roamed code := trail_tourBlock (trail_tour _) _ _

end Reach

/-- From one point of a tour to another lies a fair leg, on which those ids are used besides that were owed at the
start. -/
def Tour.Goes (owed : List Nat) (start finish : Tour) : Prop :=
  ∃ leg : Leg, leg.Fair start.trail.ids owed ∧ finish.trail.ids = start.trail.ids ++ leg.named ∧
    finish.used = start.used ++ leg.used ∧ finish.stops = start.stops ++ leg.stops

namespace Tour.Goes

variable {start middle finish : Tour} {owed more : List Nat}

theorem refl (tour : Tour) : Goes [] tour tour :=
  ⟨⟨[], [], []⟩, Leg.fair_empty _, by simp, by simp, by simp⟩

theorem trans (first : Goes owed start middle) (rest : Goes more middle finish)
    (owing : ∀ id ∈ more, id ∈ start.trail.ids) : Goes (owed ++ more) start finish := by
  obtain ⟨leg, fair, named, used, stops⟩ := first
  obtain ⟨second, latter, namedThen, usedThen, stopsThen⟩ := rest
  rw [named] at latter namedThen
  rw [used] at usedThen
  rw [stops] at stopsThen
  refine ⟨_, fair.append latter owing, ?_, ?_, ?_⟩
  · rw [namedThen, List.append_assoc]
  · rw [usedThen, List.append_assoc]
  · rw [stopsThen, List.append_assoc]

/-- Steps that each go somewhere go together where the last of them comes. -/
theorem foldl {α : Type} {step : Tour → α → Tour} {owes : α → List Nat}
    (each : ∀ (tour : Tour) a, (∀ id ∈ owes a, id ∈ tour.trail.ids) → Goes (owes a) tour (step tour a))
    (steps : List α) :
    ∀ tour : Tour, (∀ id ∈ steps.flatMap owes, id ∈ tour.trail.ids) →
      Goes (steps.flatMap owes) tour (steps.foldl step tour) := by
  induction steps with
  | nil => exact fun tour _ => refl tour
  | cons a rest ih =>
    intro tour owing
    rw [List.flatMap_cons] at owing ⊢
    have owingRest : ∀ id ∈ rest.flatMap owes, id ∈ tour.trail.ids :=
      fun id member => owing id (List.mem_append_right _ member)
    have here := each tour a fun id member => owing id (List.mem_append_left _ member)
    apply here.trans (ih _ _) owingRest
    intro id member
    obtain ⟨leg, -, named, -⟩ := here
    rw [named]
    exact List.mem_append_left _ (owingRest id member)

end Tour.Goes

namespace Reach

open Tour (Goes)

variable {code : Array UInt8} {descend : Nat × Nat → Tour → Tour}

theorem goes_use (deeper : ∀ range tour, Goes [] tour (descend range tour)) (tour : Tour) (operand : Operand)
    (named : ∀ id ∈ operand.ids, id ∈ tour.trail.ids) : Goes operand.ids tour (use code descend tour operand) := by
  unfold use
  cases origin : operand.origin with
  | texture id =>
    rw [Operand.ids_of_texture origin] at named ⊢
    exact ⟨_, Leg.fair_use (named id (List.mem_singleton_self id)), by simp, rfl, by simp⟩
  | block offset length =>
    rw [Operand.ids_of_block origin]
    dsimp only
    split
    · exact .refl tour
    · split
      · exact .refl tour
      · exact deeper _ tour

/-- An instruction makes a stop and owes nothing once it is over. -/
theorem goes_attend (deeper : ∀ range tour, Goes [] tour (descend range tour)) (tour : Tour) (i : Instr Operand) :
    Goes [] tour (attend code descend tour i) := by
  have ids : (tour.trail.record i).ids = tour.trail.ids ++ i.ids := by simp [Trail.ids, Trail.record]
  have loads : Goes i.ids { tour with trail := tour.trail.record i }
      (i.sources.foldl (use code descend) { tour with trail := tour.trail.record i }) := by
    apply Goes.foldl (goes_use deeper)
    intro id member
    rw [ids]
    exact List.mem_append_right _ member
  obtain ⟨leg, fair, named, used, stops⟩ := loads
  rw [ids] at fair named
  have usedHere := congrArg (List.drop tour.used.length) used
  rw [List.drop_left] at usedHere
  refine ⟨_, fair.meet, ?_, used, ?_⟩
  · rw [← List.append_assoc]
    exact named
  · rw [attend, stops, usedHere, List.append_assoc]

theorem goes_tourBlock (deeper : ∀ range tour, Goes [] tour (descend range tour)) (block : Block) (tour : Tour) :
    Goes [] tour (tourBlock code descend block tour) := by
  have nothing : block.instrs.flatMap (fun _ => ([] : List Nat)) = [] := by simp
  rw [← nothing]
  apply Goes.foldl (fun tour located _ => goes_attend deeper tour located.instr) block.instrs tour
  simp

theorem goes_tour (room : Nat) (range : Nat × Nat) (start : Tour) : Goes [] start (tour code room range start) := by
  -- To enter a block names and uses nothing, so that what lies behind it starts where the tour was.
  induction room generalizing range start with
  | zero => exact .refl start
  | succ room ih => exact goes_tourBlock ih _ (start.enter range)

end Reach

/-- The ids that a program depends on come in the order of first use just if all stops of its tour are prompt, and the
first of them is the one used first just if those stops lead. -/
theorem dependencies_eq_used_iff (code : Array UInt8) :
    ((Reach.toured code).used.eraseDups = dependencies code ↔ ∀ stop ∈ (Reach.toured code).stops, stop.Prompt) ∧
      ((Reach.toured code).used.eraseDups.head? = (dependencies code).head? ↔
        ∀ stop ∈ (Reach.toured code).stops, stop.Leading) := by
  have goes : Tour.Goes [] {} (Reach.toured code) := Reach.goes_tourBlock (Reach.goes_tour depthLimit) _ _
  obtain ⟨leg, fair, named, used, stops⟩ := goes
  have all : dependencies code = leg.named.eraseDups := by
    rw [dependencies_eq, ← Reach.trail_toured, named]
    rfl
  have prompt := fair.prompt
  rw [show ({} : Tour).trail.ids = [] from rfl, fresh_nil_left, fresh_nil_left] at prompt
  have leading := fair.leading rfl
  rw [show (Reach.toured code).used = leg.used from used, show (Reach.toured code).stops = leg.stops from stops, all,
    head?_eraseDups, head?_eraseDups]
  exact ⟨prompt.symm, leading.symm⟩

end TextureLoom.Bytecode
