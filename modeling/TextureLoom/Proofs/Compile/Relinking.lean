import TextureLoom.Failure
import TextureLoom.Proofs.Compile.Patching

set_option autoImplicit false

namespace TextureLoom.Bytecode.Rewrites

variable {fields : List Nat} {first second third : Array UInt8}

theorem refl (fields : List Nat) (code : Array UInt8) : Rewrites fields code code := ⟨rfl, fun _ _ => rfl⟩

theorem trans (former : Rewrites fields first second) (latter : Rewrites fields second third) :
    Rewrites fields first third where
  size := latter.size.trans former.size
  outside := fun k clear => (latter.outside k clear).trans (former.outside k clear)

end TextureLoom.Bytecode.Rewrites

namespace TextureLoom.Program

open Bytecode (Rewrites limit24)
open Bytecode.Listing (Patch)

/-- What a resolver says that may change its mind: `answers k name` when `name` is asked for and `k` questions came
before. -/
abbrev Answers := Nat → String → Option Nat

/-- The ids of the patches, each asked for in turn until one has none. -/
def resolveInTurn : Answers → List Patch → Except LinkError (List Nat)
  | _, [] => .ok []
  | answers, patch :: rest =>
    match answers 0 patch.name with
    | none => .error (.unresolved patch.name)
    | some id =>
      if id < limit24 then (resolveInTurn (fun k => answers (k + 1)) rest).map (id :: ·)
      else .error (.idTooLarge patch.name id)

/-- Linking with a resolver that may change its mind. -/
def linkInTurn (p : Program) (answers : Answers) : Program × Except LinkError Unit :=
  match resolveInTurn answers p.patches with
  | .error e => ({ p with linked := false }, .error e)
  | .ok ids => ({ p with code := writeFields p.code ((p.patches.map (·.field)).zip ids), linked := true }, .ok ())

theorem resolve_eq_resolveInTurn (resolver : String → Option Nat) (patches : List Patch) :
    ∀ done, resolve resolver patches done = (resolveInTurn (fun _ => resolver) patches).map (done.toList ++ ·) := by
  induction patches with
  | nil => intro done; simp [resolve, resolveInTurn, Except.map]
  | cons patch rest ih =>
    intro done
    rw [resolve, resolveInTurn]
    cases resolver patch.name with
    | none => rfl
    | some id =>
      by_cases small : id < limit24
      · simp only [if_pos small, ih]
        cases resolveInTurn (fun _ => resolver) rest <;> simp [Except.map]
      · simp only [if_neg small]
        rfl

/-- With a resolver that does not change its mind this is linking. -/
theorem linkInTurn_eq_link (p : Program) (resolver : String → Option Nat) :
    p.linkInTurn (fun _ => resolver) = p.link resolver := by
  rw [linkInTurn, link, resolve_eq_resolveInTurn]
  cases resolveInTurn (fun _ => resolver) p.patches <;> simp [Except.map]

/-- What the resolver says for each patch. -/
def given (answers : Answers) (patches : List Patch) : List (Option Nat) :=
  patches.mapIdx fun k patch => answers k patch.name

theorem given_cons (answers : Answers) (patch : Patch) (rest : List Patch) :
    given answers (patch :: rest) = answers 0 patch.name :: given (fun k => answers (k + 1)) rest := by
  rw [given, List.mapIdx_cons, given]

/-- An id that the resolver gives and that three bytes can hold. -/
def IsId (answer : Option Nat) : Prop := ∃ id, answer = some id ∧ id < limit24

/-- An error names the first patch without an id. -/
def Blames (answers : Answers) (patches : List Patch) (e : LinkError) : Prop :=
  ∃ before patch after, patches = before ++ patch :: after ∧ (∀ answer ∈ given answers before, IsId answer) ∧
    (answers before.length patch.name = none ∧ e = .unresolved patch.name ∨
      ∃ id, answers before.length patch.name = some id ∧ limit24 ≤ id ∧ e = .idTooLarge patch.name id)

theorem resolveInTurn_spec (patches : List Patch) :
    ∀ answers : Answers, match resolveInTurn answers patches with
      | .ok ids => given answers patches = ids.map some ∧ ∀ id ∈ ids, id < limit24
      | .error e => Blames answers patches e := by
  induction patches with
  | nil => exact fun answers => ⟨rfl, fun _ member => absurd member List.not_mem_nil⟩
  | cons patch rest ih =>
    intro answers
    rw [resolveInTurn]
    cases answer : answers 0 patch.name with
    | none => exact ⟨[], patch, rest, rfl, by simp [given], .inl ⟨answer, rfl⟩⟩
    | some id =>
      by_cases small : id < limit24
      · have later := ih fun k => answers (k + 1)
        simp only [if_pos small]
        cases outcome : resolveInTurn (fun k => answers (k + 1)) rest with
        | ok ids =>
          rw [outcome] at later
          refine ⟨?_, ?_⟩
          · rw [given_cons, answer, later.1]
            rfl
          · simpa using ⟨small, later.2⟩
        | error e =>
          rw [outcome] at later
          obtain ⟨before, other, after, rfl, fine, blamed⟩ := later
          refine ⟨patch :: before, other, after, rfl, ?_, blamed⟩
          rw [given_cons, List.forall_mem_cons]
          exact ⟨⟨id, answer, small⟩, fine⟩
      · simp only [if_neg small]
        exact ⟨[], patch, rest, rfl, by simp [given], .inr ⟨id, answer, Nat.not_lt.mp small, rfl⟩⟩

/-- The program after some attempts to link it. -/
def retry (p : Program) (tries : List Answers) : Program := tries.foldl (fun p answers => (p.linkInTurn answers).1) p

theorem retry_concat (p : Program) (tries : List Answers) (last : Answers) :
    p.retry (tries ++ [last]) = ((p.retry tries).linkInTurn last).1 := by
  rw [retry, List.foldl_append]
  rfl

variable {program before after : Program} {answers : Answers}

/-- An attempt succeeds just when each patch is given an id, which is written at its field then. -/
theorem linkInTurn_cases (p : Program) (answers : Answers) :
    (∃ ids, given answers p.patches = ids.map some ∧ (∀ id ∈ ids, id < limit24) ∧ p.linkInTurn answers =
        ({ p with code := writeFields p.code ((p.patches.map (·.field)).zip ids), linked := true }, .ok ())) ∨
      ∃ e, Blames answers p.patches e ∧ p.linkInTurn answers = ({ p with linked := false }, .error e) := by
  have spec := resolveInTurn_spec p.patches answers
  rw [linkInTurn]
  cases outcome : resolveInTurn answers p.patches with
  | ok ids =>
    rw [outcome] at spec
    exact .inl ⟨ids, spec.1, spec.2, rfl⟩
  | error e =>
    rw [outcome] at spec
    exact .inr ⟨e, spec, rfl⟩

theorem Blames.exists_not_isId {patches : List Patch} {e : LinkError} (blames : Blames answers patches e) :
    ∃ answer ∈ given answers patches, ¬IsId answer := by
  obtain ⟨front, patch, back, rfl, -, blamed⟩ := blames
  refine ⟨answers front.length patch.name, ?_, ?_⟩
  · rw [given, List.mem_mapIdx]
    exact ⟨front.length, by simp, by simp⟩
  · rintro ⟨id, same, small⟩
    rcases blamed with ⟨none, -⟩ | ⟨large, found, outside, -⟩
    · rw [none] at same
      cases same
    · rw [found] at same
      cases same
      exact absurd small (Nat.not_lt.mpr outside)

theorem success_iff (p : Program) (answers : Answers) :
    (p.linkInTurn answers).2 = .ok () ↔ ∀ answer ∈ given answers p.patches, IsId answer := by
  rcases linkInTurn_cases p answers with ⟨ids, all, small, same⟩ | ⟨e, blames, same⟩
  · rw [same, all]
    refine iff_of_true rfl fun answer member => ?_
    obtain ⟨id, isGiven, rfl⟩ := List.mem_map.mp member
    exact ⟨id, rfl, small id isGiven⟩
  · rw [same]
    obtain ⟨answer, isGiven, isNone⟩ := blames.exists_not_isId
    exact iff_of_false (fun failed => nomatch failed) fun each => isNone (each answer isGiven)

/-- An attempt leaves the program linked just when it succeeds. -/
theorem linked_linkInTurn (p : Program) (answers : Answers) :
    (p.linkInTurn answers).1.linked = true ↔ (p.linkInTurn answers).2 = .ok () := by
  rcases linkInTurn_cases p answers with ⟨ids, -, -, same⟩ | ⟨e, -, same⟩
  · simp [same]
  · simp [same]

/-- An attempt writes nothing but the fields of the names. -/
theorem linkInTurn_keeps (p : Program) (answers : Answers) :
    (p.linkInTurn answers).1.patches = p.patches ∧
      Rewrites (p.patches.map (·.field)) p.code (p.linkInTurn answers).1.code := by
  rcases linkInTurn_cases p answers with ⟨ids, all, -, same⟩ | ⟨e, -, same⟩
  · rw [same]
    refine ⟨rfl, ?_⟩
    have length := congrArg List.length all
    rw [given, List.length_mapIdx, List.length_map] at length
    have written := rewrites_writeFields ((p.patches.map (·.field)).zip ids) p.code
    rwa [List.map_fst_zip (by rw [List.length_map]; omega)] at written
  · rw [same]
    exact ⟨rfl, .refl _ _⟩

theorem retry_keeps (p : Program) (tries : List Answers) :
    (p.retry tries).patches = p.patches ∧ Rewrites (p.patches.map (·.field)) p.code (p.retry tries).code := by
  induction tries generalizing p with
  | nil => exact ⟨rfl, .refl _ _⟩
  | cons answers rest ih =>
    obtain ⟨patches, rewrites⟩ := linkInTurn_keeps p answers
    obtain ⟨samePatches, further⟩ := ih (p.linkInTurn answers).1
    rw [patches] at samePatches further
    exact ⟨samePatches, rewrites.trans further⟩

/-- Ids that are written at fields apart from each other can be read there. -/
theorem read24_writeFields_zip {code : Array UInt8} {fields ids : List Nat} (length : fields.length = ids.length)
    (small : ∀ id ∈ ids, id < limit24) (apart : fields.Pairwise fun first second => first + 3 ≤ second)
    (inside : ∀ field ∈ fields, field + 3 ≤ code.size) :
    fields.map (Bytes.read24 (writeFields code (fields.zip ids))) = ids := by
  have firsts : (fields.zip ids).map Prod.fst = fields := List.map_fst_zip (Nat.le_of_eq length)
  have seconds : (fields.zip ids).map Prod.snd = ids := List.map_snd_zip (Nat.le_of_eq length.symm)
  have entriesApart : (fields.zip ids).Pairwise fun first second => first.1 + 3 ≤ second.1 := by
    rw [← firsts] at apart
    exact List.pairwise_map.mp apart
  generalize fields.zip ids = entries at firsts seconds entriesApart
  subst firsts seconds
  rw [List.map_map]
  apply List.map_congr_left
  rintro ⟨field, id⟩ member
  exact read24_writeFields (small id (List.mem_map_of_mem member)) entriesApart
    (fun entry isEntry => inside entry.1 (List.mem_map_of_mem isEntry)) member

/-- The fields of a compiled program's names ascend, are its sites, and hold no other bytes that it reads. -/
theorem sites_of_compile {text : String} (compiled : compile text = .ok program) :
    (program.patches.map (·.field)).Pairwise (fun first second => first + 3 ≤ second) ∧
      Bytecode.textureSites program.code = .ok (program.patches.map (·.field)) ∧ Bytecode.Separate program.code ∧
      (program.linked = true ↔ program.patches = []) := by
  obtain ⟨p, d, jobs, -, isDraft, rfl⟩ := exists_draft compiled
  have isLinked := Compile.isLinked_ofDraft d
  have fields : (Compile.Compiled.ofDraft d).patches.toList.map (·.field) =
      Compile.nameFields 0 (Compile.programParts d.blocks.toList) := by
    rw [(Compile.Compiled.consists_ofDraft d).patches]
    rfl
  simp only [fields]
  refine ⟨Compile.nameFields_apart _ 0, isLinked.textureSites_eq isDraft, isLinked.separate isDraft, ?_⟩
  simp

/-- The sites of a program that has been linked before, or not, are those of the program as it was compiled, and the ids
that it reads are the numbers there. -/
theorem mem_dependencies_of_compile {text : String} (compiled : compile text = .ok program) {code : Array UInt8}
    (rewrites : Rewrites (program.patches.map (·.field)) program.code code) (id : Nat) :
    id ∈ Bytecode.dependencies code ↔ ∃ patch ∈ program.patches, Bytes.read24 code patch.field = id := by
  obtain ⟨-, found, separate, -⟩ := sites_of_compile compiled
  rw [Bytecode.mem_dependencies_iff ((separate.renumbers found rewrites).textureSites_eq found)]
  constructor
  · rintro ⟨field, isSite, same⟩
    obtain ⟨patch, isPatch, rfl⟩ := List.mem_map.mp isSite
    exact ⟨patch, isPatch, same⟩
  · rintro ⟨patch, isPatch, same⟩
    exact ⟨patch.field, List.mem_map_of_mem isPatch, same⟩

/-- An attempt that succeeds leaves at each field the id given for its name. -/
theorem read24_of_linkInTurn {text : String} (compiled : compile text = .ok program)
    (patches : before.patches = program.patches) (size : before.code.size = program.code.size)
    (linked : before.linkInTurn answers = (after, .ok ())) :
    program.patches.map (fun patch => some (Bytes.read24 after.code patch.field)) = given answers program.patches := by
  obtain ⟨apart, found, -, -⟩ := sites_of_compile compiled
  rcases linkInTurn_cases before answers with ⟨ids, all, small, same⟩ | ⟨e, -, same⟩
  · rw [linked] at same
    cases same
    rw [patches] at all ⊢
    have length := congrArg List.length all
    rw [given, List.length_mapIdx, List.length_map] at length
    have inside : ∀ field ∈ program.patches.map (·.field), field + 3 ≤ before.code.size :=
      fun field isField => size ▸ Bytecode.site_le_size found isField
    have reads := read24_writeFields_zip (by rw [List.length_map]; exact length) small apart inside
    have listed := congrArg (List.map some) reads
    rw [List.map_map, List.map_map] at listed
    exact listed.trans all.symm
  · rw [linked] at same
    cases same

/-- What linking a program comes to, however often it is tried and whatever a resolver says. -/
structure Relinks (program : Program) : Prop where
  /-- Each name has a field of its own. -/
  distinct : (program.patches.map (·.field)).Nodup
  sites : Bytecode.textureSites program.code = .ok (program.patches.map (·.field)).mergeSort
  patches : ∀ tries, (program.retry tries).patches = program.patches
  succeeds_iff : ∀ tries answers, ((program.retry tries).linkInTurn answers).2 = .ok () ↔
    ∀ answer ∈ given answers program.patches, IsId answer
  /-- The fields have the ids that the resolver gives for their names, nothing else changes, and the ids are those that
  the program reads. -/
  success : ∀ tries answers after, (program.retry tries).linkInTurn answers = (after, .ok ()) →
    after.ensureLinked = .ok () ∧ Rewrites (program.patches.map (·.field)) (program.retry tries).code after.code ∧
      program.patches.map (fun patch => some (Bytes.read24 after.code patch.field)) = given answers program.patches ∧
      ∀ id, id ∈ Bytecode.dependencies after.code ↔ some id ∈ given answers program.patches
  failure : ∀ tries answers after e, (program.retry tries).linkInTurn answers = (after, .error e) →
    after.code = (program.retry tries).code ∧ after.linked = false ∧ Blames answers program.patches e
  /-- Without names a program is linked always, and with names just after an attempt that succeeds. -/
  linked_iff : ∀ tries, (program.retry tries).linked = true ↔ program.patches = [] ∨
    ∃ earlier last, tries = earlier ++ [last] ∧ ((program.retry earlier).linkInTurn last).2 = .ok ()
  /-- An unlinked program names what it wants linked instead of an image, a recipe or other ids. -/
  unlinked : ∀ tries, (program.retry tries).linked = false →
    let e := LinkError.unlinked (program.patches.map (·.name)).eraseDups
    (∀ provider seconds, (program.retry tries).image provider seconds = .error (.link e)) ∧
      (program.retry tries).recipe = .error e ∧
      ∀ table, (program.retry tries).rename table = .error (.unlinked e)

/-- Names, patches and links of a compiled text agree. -/
theorem relinks_of_compile {text : String} (compiled : compile text = .ok program) : program.Relinks := by
  obtain ⟨apart, found, separate, start⟩ := sites_of_compile compiled
  have ascends := apart.imp fun {first second} le => (show first < second by omega)
  have kept := retry_keeps program
  constructor
  · exact ascends.imp Nat.ne_of_lt
  · rw [found, List.mergeSort_of_pairwise (ascends.imp fun less => decide_eq_true (Nat.le_of_lt less))]
  · exact fun tries => (kept tries).1
  · intro tries answers
    rw [← (kept tries).1]
    exact success_iff _ _
  · intro tries answers after linked
    obtain ⟨patches, rewrites⟩ := kept tries
    have keeps := (linkInTurn_keeps (program.retry tries) answers).2
    rw [linked, patches] at keeps
    have reads := read24_of_linkInTurn compiled patches rewrites.size linked
    have isLinked := (linked_linkInTurn (program.retry tries) answers).mpr (by rw [linked])
    rw [linked] at isLinked
    refine ⟨by rw [ensureLinked, if_pos isLinked], keeps, reads, fun id => ?_⟩
    rw [mem_dependencies_of_compile compiled (rewrites.trans keeps), ← reads, List.mem_map]
    simp
  · intro tries answers after e failed
    rcases linkInTurn_cases (program.retry tries) answers with ⟨ids, -, -, same⟩ | ⟨other, blames, same⟩
    · rw [failed] at same
      cases same
    · rw [failed] at same
      cases same
      rw [(kept tries).1] at blames
      exact ⟨rfl, rfl, blames⟩
  · intro tries
    rcases List.eq_nil_or_concat tries with rfl | ⟨earlier, last, rfl⟩
    · rw [retry, List.foldl_nil, start]
      simp
    · rw [List.concat_eq_append, retry_concat, linked_linkInTurn]
      constructor
      · exact fun success => .inr ⟨earlier, last, rfl, success⟩
      · rintro (none | ⟨others, final, same, success⟩)
        · rw [success_iff, (kept earlier).1, none]
          exact fun answer member => absurd member List.not_mem_nil
        · obtain ⟨rfl, sameLast⟩ := List.append_inj' same rfl
          cases sameLast
          exact success
  · intro tries unlinked
    obtain ⟨patches, -⟩ := kept tries
    have refused : (program.retry tries).ensureLinked =
        .error (.unlinked (program.patches.map (·.name)).eraseDups) := by
      rw [ensureLinked, unresolvedNames, unlinked, patches]
      rfl
    refine ⟨fun provider seconds => ?_, ?_, fun table => ?_⟩
    · rw [image, refused]
      rfl
    · rw [recipe, refused]
      rfl
    · rw [rename, refused]

/-- Moss, inverted, over stone. The first attempt has an id for the first name only, and the second has one for each,
the first of them another than before. -/
theorem relinks_of_compile_mossy :
    let program : Program := ⟨#[1, 0, 0, 0, 0, 30, 1, 14, 0, 0, 8, 0, 0, 0, 1, 0, 0, 0, 0, 15, 7, 0],
      [⟨2, "stone"⟩, ⟨16, "moss"⟩], false⟩
    let one : Answers := fun k _ => if k = 0 then some 5 else none
    let both : Answers := fun k name => if k = 0 then some 7 else if name = "moss" then some 300 else none
    compile "stone |> overlay(tex(moss |> invert))" = .ok program ∧ program.Relinks ∧
      program.linkInTurn one = (program, .error (.unresolved "moss")) ∧
      (program.retry [one]).linkInTurn both =
        (⟨#[1, 0, 7, 0, 0, 30, 1, 14, 0, 0, 8, 0, 0, 0, 1, 0, 44, 1, 0, 15, 7, 0], program.patches, true⟩, .ok ()) := by
  intro program one both
  have compiled : compile "stone |> overlay(tex(moss |> invert))" = .ok program := by decide +kernel
  exact ⟨compiled, relinks_of_compile compiled, by decide +kernel, by decide +kernel⟩

end TextureLoom.Program
