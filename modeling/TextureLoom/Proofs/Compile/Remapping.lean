import TextureLoom.Proofs.Bake.Acceptance
import TextureLoom.Proofs.Bake.Mirroring
import TextureLoom.Proofs.Bytecode.Renaming
import TextureLoom.Proofs.Compile.Relinking

set_option autoImplicit false

namespace TextureLoom.Program

open Bytecode (Block Instr Operand Reaches Renumbers Rewrites Separate dependencies limit24 reachable textureSites)
open Bytes (read24)

/-- The id that a table has for an id, or that id itself. -/
def entry (table : Array Nat) (id : Nat) : Nat := table[id]?.getD id

/-- The table has an id for this one that three bytes can hold. -/
def HasEntry (table : Array Nat) (id : Nat) : Prop := ∃ new, table[id]? = some new ∧ new < limit24

theorem HasEntry.entry_lt {table : Array Nat} {id : Nat} (has : HasEntry table id) : entry table id < limit24 := by
  obtain ⟨new, found, small⟩ := has
  rwa [entry, found]

/-- The new id at a field. -/
def newField (code : Array UInt8) (table : Array Nat) (field : Nat) : Except CodeError (Nat × Nat) :=
  let old := read24 code field
  match table[old]? with
  | none => .error (.idOutsideTable old field table.size)
  | some new => if new < limit24 then .ok (field, new) else .error (.renamedIdTooLarge new)

def writeField (entry : Nat × Nat) : ExceptT RenameError (StateM Program) Unit :=
  modify fun p => { p with code := Bytes.write24 p.code entry.1 entry.2 }

/-- Renaming the ids of a program in place: what has been written by the time of an error stays written. -/
def renameInPlace (table : Array Nat) : ExceptT RenameError (StateM Program) Unit := do
  let p ← get
  match p.ensureLinked with
  | .error e => throw (.unlinked e)
  | .ok _ =>
    match textureSites p.code with
    | .error e => throw (.code (.malformed e))
    | .ok sites =>
      match sites.mapM (newField p.code table) with
      | .error e => throw (.code e)
      | .ok entries => forM entries writeField

/-- The program once its ids have been renamed in place, or that was given up. -/
def remap (p : Program) (table : Array Nat) : Program × Except RenameError Unit :=
  ((renameInPlace table).run.run p).swap

theorem renamedFields_eq_mapM (code : Array UInt8) (table : Array Nat) (sites : List Nat) :
    ∀ done, renamedFields code table sites done = (sites.mapM (newField code table)).map (done.toList ++ ·) := by
  induction sites with
  | nil => intro done; simp [renamedFields, Except.map, pure, Except.pure]
  | cons field rest ih =>
    intro done
    rw [renamedFields, List.mapM_cons, newField]
    cases table[read24 code field]? with
    | none => rfl
    | some new =>
      by_cases small : new < limit24
      · simp only [if_pos small, ih]
        cases rest.mapM (newField code table) <;>
          simp [Except.map, bind, Except.bind, pure, Except.pure]
      · simp only [if_neg small]
        rfl

theorem run_writeFields (entries : List (Nat × Nat)) :
    ∀ p : Program, (forM entries writeField).run.run p = (.ok (), { p with code := writeFields p.code entries }) := by
  induction entries with
  | nil => exact fun p => rfl
  | cons entry rest ih =>
    intro p
    rw [List.forM_cons]
    exact ih { p with code := Bytes.write24 p.code entry.1 entry.2 }

/-- Renaming in place is renaming: it writes nothing before all is known. -/
theorem remap_eq (p : Program) (table : Array Nat) :
    p.remap table = match p.rename table with
      | .ok after => (after, .ok ())
      | .error e => (p, .error e) := by
  rw [remap, renameInPlace, Bake.run_get_bind, rename, renamed]
  cases p.ensureLinked with
  | error e => rfl
  | ok _ =>
    cases textureSites p.code with
    | error e => rfl
    | ok sites =>
      simp only [renamedFields_eq_mapM]
      cases sites.mapM (newField p.code table) with
      | error e => rfl
      | ok entries =>
        simp only [run_writeFields]
        rfl

theorem newField_cases (code : Array UInt8) (table : Array Nat) (field : Nat) :
    (HasEntry table (read24 code field) ∧ newField code table field = .ok (field, entry table (read24 code field))) ∨
      ¬HasEntry table (read24 code field) ∧ ∃ e, newField code table field = .error e := by
  rw [newField, entry]
  cases found : table[read24 code field]? with
  | none => exact .inr ⟨fun ⟨new, known, _⟩ => (nomatch found.symm.trans known), _, rfl⟩
  | some new =>
    by_cases small : new < limit24
    · exact .inl ⟨⟨new, found, small⟩, if_pos small⟩
    · refine .inr ⟨fun ⟨other, known, bound⟩ => ?_, _, if_neg small⟩
      cases found.symm.trans known
      exact small bound

/-- All the new ids are found, or one is missing. -/
theorem mapM_newField_cases (code : Array UInt8) (table : Array Nat) (sites : List Nat) :
    ((∀ field ∈ sites, HasEntry table (read24 code field)) ∧ sites.mapM (newField code table) =
        .ok (sites.map fun field => (field, entry table (read24 code field)))) ∨
      (∃ field ∈ sites, ¬HasEntry table (read24 code field)) ∧ ∃ e, sites.mapM (newField code table) = .error e := by
  induction sites with
  | nil => exact .inl ⟨nofun, rfl⟩
  | cons field rest ih =>
    rw [List.mapM_cons, List.map_cons, List.forall_mem_cons, List.exists_mem_cons_iff]
    rcases newField_cases code table field with ⟨has, same⟩ | ⟨lacks, e, same⟩
    · rw [same]
      rcases ih with ⟨all, others⟩ | ⟨missing, e, others⟩
      · exact .inl ⟨⟨has, all⟩, by rw [others]; rfl⟩
      · exact .inr ⟨.inr missing, e, by rw [others]; rfl⟩
    · rw [same]
      exact .inr ⟨.inl lacks, e, rfl⟩

section

variable {program p after : Program} {table : Array Nat} {sites : List Nat} {text : String}

/-- Renaming succeeds just when there is a new id for each id that the program depends on. Where it does not it leaves
the program as it was. -/
theorem remap_cases (linked : p.linked = true) (found : textureSites p.code = .ok sites) (table : Array Nat) :
    ((∀ id ∈ dependencies p.code, HasEntry table id) ∧ p.remap table =
        ({ p with code := writeFields p.code (sites.map fun field => (field, entry table (read24 p.code field))) },
          .ok ())) ∨
      (∃ id ∈ dependencies p.code, ¬HasEntry table id) ∧ ∃ e, p.remap table = (p, .error e) := by
  have ready : p.ensureLinked = .ok () := by rw [ensureLinked, if_pos linked]
  rw [remap_eq, rename, ready, renamed, found]
  simp only [renamedFields_eq_mapM]
  rcases mapM_newField_cases p.code table sites with ⟨all, same⟩ | ⟨⟨field, isSite, lacks⟩, e, same⟩
  · refine .inl ⟨fun id depends => ?_, ?_⟩
    · obtain ⟨field, isSite, rfl⟩ := (Bytecode.mem_dependencies_iff found).mp depends
      exact all field isSite
    · rw [same]
      rfl
  · refine .inr ⟨⟨_, (Bytecode.mem_dependencies_iff found).mpr ⟨field, isSite, rfl⟩, lacks⟩, .code e, ?_⟩
    rw [same]
    rfl

/-- A program once its ids have been renamed. -/
theorem remap_eq_ok (found : textureSites p.code = .ok sites) (remapped : p.remap table = (after, .ok ())) :
    (∀ id ∈ dependencies p.code, HasEntry table id) ∧ after =
      { p with code := writeFields p.code (sites.map fun field => (field, entry table (read24 p.code field))) } := by
  have linked : p.linked = true := by
    by_contra unlinked
    rw [remap_eq, rename, ensureLinked, if_neg unlinked] at remapped
    cases remapped
  rcases remap_cases linked found table with ⟨all, same⟩ | ⟨-, e, same⟩
  · rw [remapped] at same
    exact ⟨all, congrArg Prod.fst same⟩
  · rw [remapped] at same
    cases same

/-- Renaming writes nothing but ids. -/
theorem rewrites_of_remap (found : textureSites p.code = .ok sites) (remapped : p.remap table = (after, .ok ())) :
    Rewrites sites p.code after.code := by
  obtain ⟨-, rfl⟩ := remap_eq_ok found remapped
  have written := rewrites_writeFields (sites.map fun field => (field, entry table (read24 p.code field))) p.code
  have fields : (sites.map fun field => (field, entry table (read24 p.code field))).map (·.1) = sites := by
    rw [List.map_map]
    exact List.map_id sites
  rwa [fields] at written

/-- Where its ids are apart from what else a program reads, renaming them renames them. -/
theorem renumbers_of_remap (separate : Separate p.code) (found : textureSites p.code = .ok sites)
    (remapped : p.remap table = (after, .ok ())) : Renumbers (fun _ => entry table) p.code after.code := by
  refine separate.renames found (rewrites_of_remap found remapped) fun field isSite => ?_
  obtain ⟨has, rfl⟩ := remap_eq_ok found remapped
  have small := (has _ ((Bytecode.mem_dependencies_iff found).mpr ⟨field, isSite, rfl⟩)).entry_lt
  refine read24_writeFields small ?_ ?_ (List.mem_map.mpr ⟨field, isSite, rfl⟩)
  · exact List.pairwise_map.mpr (separate.sites_apart found)
  · intro written member
    obtain ⟨other, isOther, rfl⟩ := List.mem_map.mp member
    exact Bytecode.site_le_size found isOther

/-- The second program is the first with its ids renamed, and nothing else. -/
structure Renamed (rename : Nat → Nat) (p after : Program) : Prop where
  rest : after = { p with code := after.code }
  accepted : ofBytes after.code = .ok ⟨after.code, [], true⟩
  /-- What was decoded is decoded where it was. -/
  blocks : ∀ range, Reaches p.code range →
    Block.within after.code range = (Block.within p.code range).renumber fun _ => rename
  reachable : reachable after.code = (reachable p.code).map (Instr.map (Operand.renumber fun _ => rename))
  dependencies : dependencies after.code = ((dependencies p.code).map rename).eraseDups
  /-- The images are those that the program made of the textures under their old ids. -/
  image : ∀ (provider old : Provider) (seconds : Float),
    (∀ id ∈ Bytecode.dependencies p.code, old id = provider (rename id)) →
      (bake after.code provider seconds).1 = (bake p.code old seconds).1.mapError (BakeError.rename rename)

theorem Renamed.of_renumbers {rename : Nat → Nat} (accepted : ofBytes p.code = .ok ⟨p.code, [], true⟩)
    (rest : after = { p with code := after.code }) (renumbers : Renumbers (fun _ => rename) p.code after.code) :
    Renamed rename p after := by
  obtain ⟨nonempty, short, ⟨sites, found⟩, -⟩ := ofBytes_eq_ok_iff.mp accepted
  refine ⟨rest, ?_, renumbers.blocks, renumbers.reachable_eq found, renumbers.dependencies_map found, ?_⟩
  · rw [ofBytes_eq_ok_iff, renumbers.size]
    exact ⟨nonempty, short, ⟨sites, renumbers.textureSites_eq found⟩, rfl⟩
  · intro provider old seconds same
    have textures : ∀ id ∈ Bytecode.dependencies p.code,
        Provider.image? (provider.renamed rename) id = Provider.image? old id := by
      intro id depends
      rw [Provider.image?, Provider.image?, same id depends, Provider.renamed]
    rw [bake_renumbers renumbers provider seconds, bake_congr p.code ⟨provider.renamed rename, seconds⟩ ⟨old, seconds⟩
      textures fun _ _ _ _ => rfl]

/-- What becomes of a program that is linked and renamed, any number of times. -/
inductive Becomes (program : Program) : Program → Prop where
  | self : Becomes program program
  | linked {p : Program} (answers : Answers) : Becomes program p → Becomes program (p.linkInTurn answers).1
  | renamed {p after : Program} {table : Array Nat} : Becomes program p → p.remap table = (after, .ok ()) →
      Becomes program after

/-- A linked program: one that was compiled, or bytes that are accepted. -/
inductive Ready : Program → Prop where
  | compiled {text : String} {program p : Program} : compile text = .ok program → Becomes program p → p.linked = true →
      Ready p
  | accepted {code : Array UInt8} {p : Program} : ofBytes code = .ok p → Ready p

/-- Whatever is done with a compiled program writes nothing but the fields of its names. -/
theorem Becomes.keeps (becomes : Becomes program p) (compiled : compile text = .ok program) :
    p.patches = program.patches ∧ Rewrites (program.patches.map (·.field)) program.code p.code := by
  obtain ⟨-, found, separate, -⟩ := sites_of_compile compiled
  induction becomes with
  | self => exact ⟨rfl, .refl _ _⟩
  | linked answers _ ih =>
    obtain ⟨patches, rewrites⟩ := ih
    obtain ⟨kept, further⟩ := linkInTurn_keeps _ answers
    rw [patches] at further
    exact ⟨kept.trans patches, rewrites.trans further⟩
  | renamed _ remapped ih =>
    obtain ⟨patches, rewrites⟩ := ih
    have found' := (separate.renumbers found rewrites).textureSites_eq found
    have further := rewrites_of_remap found' remapped
    obtain ⟨-, same⟩ := remap_eq_ok found' remapped
    exact ⟨(congrArg Program.patches same).trans patches, rewrites.trans further⟩

/-- Its sites stay the fields of its names, apart from what else it reads, and it stays acceptable. -/
theorem Becomes.keeps_sites (becomes : Becomes program p) (compiled : compile text = .ok program) :
    textureSites p.code = .ok (program.patches.map (·.field)) ∧ Separate p.code ∧
      ofBytes p.code = .ok ⟨p.code, [], true⟩ := by
  obtain ⟨-, found, separate, -⟩ := sites_of_compile compiled
  have rewrites := (becomes.keeps compiled).2
  have found' := (separate.renumbers found rewrites).textureSites_eq found
  refine ⟨found', separate.rewritten found rewrites, ?_⟩
  obtain ⟨_, d, jobs, -, isDraft, rfl⟩ := exists_draft compiled
  obtain ⟨nonempty, short, -, -⟩ := ofBytes_eq_ok_iff.mp ((Compile.isLinked_ofDraft d).ofBytes_eq isDraft)
  rw [ofBytes_eq_ok_iff, rewrites.size]
  exact ⟨nonempty, short, ⟨_, found'⟩, rfl⟩

theorem Ready.accepted_and_linked (ready : Ready p) : ofBytes p.code = .ok ⟨p.code, [], true⟩ ∧ p.linked = true := by
  cases ready with
  | compiled compiled becomes linked => exact ⟨(becomes.keeps_sites compiled).2.2, linked⟩
  | accepted accepted =>
    obtain ⟨nonempty, short, found, rfl⟩ := ofBytes_eq_ok_iff.mp accepted
    exact ⟨accepted, rfl⟩

/-- There is a table that has another id for one id, and every other id for itself. -/
theorem exists_table {old new : Nat} (bound : old < limit24) (small : new < limit24) :
    ∃ table, entry table = Bytecode.only old new ∧ ∀ id < limit24, HasEntry table id := by
  refine ⟨Array.ofFn fun id : Fin limit24 => Bytecode.only old new id, ?_, ?_⟩
  · funext id
    rw [entry, Array.getElem?_ofFn]
    split
    · rfl
    · rw [Bytecode.only, if_neg (by omega)]
      rfl
  · intro id inside
    refine ⟨Bytecode.only old new id, ?_, ?_⟩
    · rw [Array.getElem?_ofFn, dif_pos inside]
    · rw [Bytecode.only]
      split <;> assumption

/-- If all renaming of a program does is rename its ids, they are apart from what else it reads. -/
theorem separate_of_renamed (ready : Ready p)
    (renames : ∀ table after, p.remap table = (after, .ok ()) → Renamed (entry table) p after) : Separate p.code := by
  obtain ⟨accepted, linked⟩ := ready.accepted_and_linked
  obtain ⟨-, -, ⟨sites, found⟩, -⟩ := ofBytes_eq_ok_iff.mp accepted
  apply Bytecode.separate_of_renumbers
  intro old new bound small
  obtain ⟨table, same, all⟩ := exists_table bound small
  rcases remap_cases linked found table with ⟨-, remapped⟩ | ⟨⟨id, depends, lacks⟩, -⟩
  · obtain ⟨after, remapped⟩ : ∃ after, p.remap table = (after, .ok ()) := ⟨_, remapped⟩
    have renamed := renames table after remapped
    rw [same] at renamed
    exact ⟨after.code, (rewrites_of_remap found remapped).size, renamed.blocks⟩
  · obtain ⟨field, -, rfl⟩ := (Bytecode.mem_dependencies_iff found).mp depends
    exact absurd (all _ (Bytecode.read24_lt p.code field)) lacks

/-- A linked program is renamed or stays as it is. All renaming ever does is rename ids just if the program's ids are
apart from what else it reads, and those of compiled programs are. -/
theorem renamed_iff_separate (ready : Ready p) :
    (∀ table after, p.remap table = (after, .ok ()) → ∀ id ∈ dependencies p.code, HasEntry table id) ∧
      (∀ table after e, p.remap table = (after, .error e) →
        after = p ∧ ∃ id ∈ dependencies p.code, ¬HasEntry table id) ∧
      ((∀ table after, p.remap table = (after, .ok ()) → Renamed (entry table) p after) ↔ Separate p.code) ∧
      ∀ text program, compile text = .ok program → Becomes program p → Separate p.code := by
  obtain ⟨accepted, linked⟩ := ready.accepted_and_linked
  obtain ⟨-, -, ⟨sites, found⟩, -⟩ := ofBytes_eq_ok_iff.mp accepted
  refine ⟨fun table after remapped => (remap_eq_ok found remapped).1, ?_, ?_, ?_⟩
  · intro table after e remapped
    rcases remap_cases linked found table with ⟨-, same⟩ | ⟨lacks, _, same⟩
    · rw [remapped] at same
      cases same
    · rw [remapped] at same
      exact ⟨congrArg Prod.fst same, lacks⟩
  · constructor
    · exact separate_of_renamed ready
    · intro separate table after remapped
      have rest := (remap_eq_ok found remapped).2
      refine .of_renumbers accepted ?_ (renumbers_of_remap separate found remapped)
      rw [rest]
  · exact fun text program compiled becomes => (becomes.keeps_sites compiled).2.1

end

/-- Moss, inverted, over stone, linked with ids that a table has the same id for. -/
theorem renamed_iff_separate_mossy :
    let patches : List Bytecode.Listing.Patch := [⟨2, "stone"⟩, ⟨16, "moss"⟩]
    let p : Program := ⟨#[1, 0, 7, 0, 0, 30, 1, 14, 0, 0, 8, 0, 0, 0, 1, 0, 5, 0, 0, 15, 7, 0], patches, true⟩
    let after : Program := ⟨#[1, 0, 9, 0, 0, 30, 1, 14, 0, 0, 8, 0, 0, 0, 1, 0, 9, 0, 0, 15, 7, 0], patches, true⟩
    let table := Array.replicate 8 9
    Ready p ∧ p.remap table = (after, .ok ()) ∧ Renamed (entry table) p after ∧ dependencies after.code = [9] := by
  intro patches p after table
  let program : Program := ⟨#[1, 0, 0, 0, 0, 30, 1, 14, 0, 0, 8, 0, 0, 0, 1, 0, 0, 0, 0, 15, 7, 0], patches, false⟩
  let answers : Answers := fun _ name => if name = "moss" then some 5 else some 7
  have compiled : compile "stone |> overlay(tex(moss |> invert))" = .ok program := by decide +kernel
  have becomes : Becomes program p := by
    have linked : (program.linkInTurn answers).1 = p := by decide +kernel
    exact linked ▸ .linked answers .self
  have ready : Ready p := .compiled compiled becomes rfl
  have remapped : p.remap table = (after, .ok ()) := by
    rw [remap_eq, rename, renamed, (becomes.keeps_sites compiled).1]
    decide +kernel
  obtain ⟨-, -, renames, separate⟩ := renamed_iff_separate ready
  have renamed := renames.mpr (separate _ program compiled becomes) table after remapped
  refine ⟨ready, remapped, renamed, ?_⟩
  rw [renamed.dependencies]
  decide +kernel

/-- A block with texture 0, and texture 1 behind it, in whose id the block's instruction is. -/
def overlapping : Array UInt8 := #[30, 1, 10, 0, 0, 6, 0, 0, 1, 0, 1, 0, 0, 0, 0, 0]

/-- It is accepted, and the new id of texture 0 makes another id of the new one of texture 1. -/
theorem not_renamed_overlapping :
    let p : Program := ⟨overlapping, [], true⟩
    let after : Program := ⟨#[30, 1, 10, 0, 0, 6, 0, 0, 1, 0, 1, 0, 5, 0, 0, 0], [], true⟩
    ofBytes overlapping = .ok p ∧ p.remap #[5, 1] = (after, .ok ()) ∧ dependencies p.code = [0, 1] ∧
      dependencies after.code = [5, 327681] ∧ ¬Renamed (entry #[5, 1]) p after := by
  intro p after
  have found : textureSites overlapping = .ok [10, 12] := by
    obtain ⟨trail, walked, fields⟩ : ∃ trail, Bytecode.Reach.walkProgram true overlapping = .ok trail ∧
        (Bytecode.textureFields trail.met.toList).map (·.1) = [12, 10] := ⟨_, rfl, rfl⟩
    refine Bytecode.textureSites_eq_ok walked (by decide) fun field => ?_
    rw [fields, List.mem_cons, List.mem_cons, List.mem_cons, List.mem_cons, or_left_comm]
  have accepted : ofBytes overlapping = .ok p := by
    rw [ofBytes_eq_ok_iff]
    exact ⟨by decide, by decide, ⟨_, found⟩, rfl⟩
  have remapped : p.remap #[5, 1] = (after, .ok ()) := by
    rw [remap_eq, rename, renamed, found]
    decide +kernel
  have before : dependencies p.code = [0, 1] := by decide +kernel
  have behind : dependencies after.code = [5, 327681] := by decide +kernel
  refine ⟨accepted, remapped, before, behind, fun renames => ?_⟩
  have claimed := renames.dependencies
  rw [before, behind] at claimed
  revert claimed
  decide

end TextureLoom.Program
