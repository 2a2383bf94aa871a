import TextureLoom.Atlas.Basic
import TextureLoom.Proofs.Atlas.Replay
import TextureLoom.Proofs.Atlas.Rows

set_option autoImplicit false

namespace TextureLoom.Atlas

open Bytes

variable {staging later : Staging} {c : Command} {commands more : List Command} {buffer : Nat} {a : Atlas}

/-- What a command makes of the bytes of a buffer. -/
def Command.onBuffer (staging : Staging) (buffer : Nat) (bytes : ByteArray) : Command → ByteArray
  | .copyToBuffer offset target count => if target = buffer then blit staging.bytes offset bytes 0 count else bytes
  | _ => bytes

/-- The command writes to no buffer. -/
def Command.SparesBuffers : Command → Prop
  | .copyToBuffer _ _ _ => False
  | _ => True

instance : DecidablePred Command.SparesBuffers := by
  intro c
  unfold Command.SparesBuffers
  split <;> infer_instance

@[simp] theorem Command.onBuffer_size (staging : Staging) (buffer : Nat) (bytes : ByteArray) (c : Command) :
    (c.onBuffer staging buffer bytes).size = bytes.size := by
  cases c with
  | copyToBuffer offset target count =>
    rw [onBuffer]
    split
    · exact blit_size _ _ _ _ _
    · rfl
  | _ => rfl

theorem Command.SparesBuffers.onBuffer (spares : c.SparesBuffers) (bytes : ByteArray) :
    c.onBuffer staging buffer bytes = bytes := by
  cases c with
  | copyToBuffer offset target count => exact spares.elim
  | _ => rfl

theorem foldl_onBuffer_of_spares (staging : Staging) (buffer : Nat) (spares : ∀ c ∈ commands, c.SparesBuffers)
    (bytes : ByteArray) :
    commands.foldl (Command.onBuffer staging buffer) bytes = bytes := by
  induction commands generalizing bytes with
  | nil => rfl
  | cons c rest ih =>
    rw [List.foldl_cons, (spares c List.mem_cons_self).onBuffer]
    exact ih (fun later member => spares later (List.mem_cons_of_mem c member)) bytes

namespace Device

/-- The bytes of a buffer once a command is applied. -/
theorem buffers_apply (d : Device) (c : Command) :
    (d.apply staging c).buffers.get? buffer = (d.buffers.get? buffer).map (c.onBuffer staging buffer) := by
  have kept : d.buffers.get? buffer = (d.buffers.get? buffer).map fun bytes => bytes := Option.map_id'.symm
  cases c with
  | copyImage source target extent layers =>
    rw [apply]
    split <;> exact kept
  | copyToBuffer offset target count =>
    simp only [apply]
    by_cases same : buffer = target
    · subst same
      rw [Table.get?_modify_self]
      congr 1
      funext bytes
      rw [Command.onBuffer, if_pos rfl]
    · rw [Table.get?_modify_of_ne _ _ same]
      refine kept.trans (congrArg (fun f => Option.map f (d.buffers.get? buffer)) ?_)
      funext bytes
      rw [Command.onBuffer, if_neg fun other => same other.symm]
  | _ => exact kept

/-- An accepted list does to a buffer what its commands do, one after the other. -/
theorem buffers_submit {d : Device} (accepted : (d.submit staging commands).2 = .ok ()) :
    (d.submit staging commands).1.buffers.get? buffer =
      (d.buffers.get? buffer).map (commands.foldl (Command.onBuffer staging buffer)) := by
  induction commands generalizing d with
  | nil => exact Option.map_id'.symm
  | cons c rest ih =>
    rw [submit] at accepted ⊢
    split
    · rename_i violation refused
      rw [refused] at accepted
      cases accepted
    · rename_i fine
      rw [fine] at accepted
      rw [ih accepted, buffers_apply, Option.map_map]
      rfl

/-- No list changes the size of a buffer, also if it is refused on the way. -/
theorem bufferSize_submit (d : Device) (staging : Staging) (buffer : Nat) (commands : List Command) :
    ((d.submit staging commands).1.buffers.get? buffer).map ByteArray.size =
      (d.buffers.get? buffer).map ByteArray.size := by
  induction commands generalizing d with
  | nil => rfl
  | cons c rest ih =>
    rw [submit]
    split
    · rfl
    · rw [ih, buffers_apply, Option.map_map]
      congr 1
      funext bytes
      exact Command.onBuffer_size _ _ _ _

/-- The rows of a table in a buffer. -/
def rows? (d : Device) (buffer : Nat) : Option (List Entry) := (d.buffers.get? buffer).map Entry.readAll

theorem rows?_of_tableBytes {d : Device} {entries : Array Entry}
    (holds : d.buffers.get? buffer = some (Entry.tableBytes entries)) : d.rows? buffer = some entries.toList := by
  rw [rows?, holds, Option.map_some, Entry.readAll_tableBytes]

end Device

/-- The commands copy the rows of an atlas to its table out of staged bytes in use, and write to buffers nowhere
else. -/
def Renews (a : Atlas) (staging : Staging) (commands : List Command) : Prop :=
  ∃ start first last, commands = first ++ .copyToBuffer start a.tableBuffer a.config.tableBytes :: last ∧
    (∀ c ∈ first ++ last, c.SparesBuffers) ∧
    start + a.config.tableBytes ≤ staging.used ∧ start + a.config.tableBytes ≤ staging.size ∧
    ∀ k < a.config.tableBytes, byteAt staging.bytes (start + k) = byteAt (Entry.tableBytes a.entries) k

namespace Renews

/-- What is staged later makes no difference. -/
theorem extend (renews : Renews a staging commands) (grown : later.Extends staging) : Renews a later commands := by
  obtain ⟨start, first, last, split, spares, inUse, inside, staged⟩ := renews
  refine ⟨start, first, last, split, spares, Nat.le_trans inUse grown.used, grown.size ▸ inside, fun k bound => ?_⟩
  have inUseAt : start + k < staging.used := by omega
  rw [grown.bytes _ inUseAt, staged k bound]

theorem append (renews : Renews a staging commands) (spares : ∀ c ∈ more, c.SparesBuffers) :
    Renews a staging (commands ++ more) := by
  obtain ⟨start, first, last, split, others, staged⟩ := renews
  refine ⟨start, first, last ++ more, ?_, ?_, staged⟩
  · rw [split, List.append_assoc, List.cons_append]
  · intro c member
    rw [← List.append_assoc] at member
    rcases List.mem_append.mp member with earlier | new
    · exact others c earlier
    · exact spares c new

theorem not_spares (renews : Renews a staging commands) : ¬∀ c ∈ commands, c.SparesBuffers := by
  obtain ⟨start, first, last, split, _⟩ := renews
  intro spares
  exact spares (.copyToBuffer start a.tableBuffer a.config.tableBytes) (by simp [split])

/-- Whatever the table held, it holds the rows behind the commands. -/
theorem result (renews : Renews a staging commands) (sized : a.entries.size = a.config.maxTextureId)
    {bytes : ByteArray} (size : bytes.size = a.config.tableBytes) :
    commands.foldl (Command.onBuffer staging a.tableBuffer) bytes = Entry.tableBytes a.entries := by
  obtain ⟨start, first, last, split, spares, _, inside, staged⟩ := renews
  have before := foldl_onBuffer_of_spares staging a.tableBuffer
    (fun c member => spares c (List.mem_append_left last member)) bytes
  have behind := fun table => foldl_onBuffer_of_spares staging a.tableBuffer
    (fun c member => spares c (List.mem_append_right first member)) table
  have tableSize : (Entry.tableBytes a.entries).size = a.config.tableBytes := by
    rw [Entry.tableBytes_size, sized, Config.tableBytes]
  have copied : blit staging.bytes start bytes 0 a.config.tableBytes = Entry.tableBytes a.entries := by
    apply ext_byteAt
    · rw [blit_size, size, tableSize]
    · intro k bound
      rw [tableSize] at bound
      rw [byteAt_blit inside (by omega), if_pos (by omega), Nat.sub_zero, staged k bound]
  rw [split, List.foldl_append, List.foldl_cons, before, Command.onBuffer, if_pos rfl, copied, behind]

end Renews

end TextureLoom.Atlas
