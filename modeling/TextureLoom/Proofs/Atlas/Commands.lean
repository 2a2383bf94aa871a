import TextureLoom.Atlas.Frame
import TextureLoom.Proofs.Atlas.Places
import TextureLoom.Proofs.Atlas.Replay

set_option autoImplicit false

namespace TextureLoom.Atlas

open Bytes

/-- The commands are in order, and only the images named by `touched` are different afterwards. -/
structure Runs (staging : Staging) (commands : List Command) (touched : List Nat) (before after : Device) : Prop where
  performs : Device.Performs staging before commands after
  alignment : after.alignment = before.alignment
  images : ∀ handle, handle ∉ touched → after.images.get? handle = before.images.get? handle
  buffers : ∀ handle, (after.buffers.get? handle).map ByteArray.size = (before.buffers.get? handle).map ByteArray.size

namespace Runs

variable {staging : Staging} {commands more : List Command} {touched others : List Nat} {before middle after : Device}

theorem nil (staging : Staging) (touched : List Nat) (d : Device) : Runs staging [] touched d d where
  performs := rfl
  alignment := rfl
  images := fun _ _ => rfl
  buffers := fun _ => rfl

theorem handles (runs : Runs staging commands touched before after) : after.handles = before.handles :=
  runs.performs.handles

theorem mono (runs : Runs staging commands touched before after) (subset : touched ⊆ others) :
    Runs staging commands others before after :=
  { runs with images := fun _ outside => runs.images _ fun inside => outside (subset inside) }

theorem append (first : Runs staging commands touched before middle) (second : Runs staging more touched middle after) :
    Runs staging (commands ++ more) touched before after where
  performs := first.performs.append second.performs
  alignment := second.alignment.trans first.alignment
  images := fun handle outside => (second.images handle outside).trans (first.images handle outside)
  buffers := fun handle => (second.buffers handle).trans (first.buffers handle)

/-- A command in order that changes one image. -/
theorem single {c : Command} {target : Nat} {change : DeviceImage → DeviceImage}
    (legal : before.Legal staging c) (effect : before.apply staging c = before.modifyImage target change) :
    Runs staging [c] [target] before (before.modifyImage target change) where
  performs := ⟨legal, effect.symm⟩
  alignment := rfl
  images := fun _ outside => Table.get?_modify_of_ne _ _ fun same => outside (List.mem_singleton.mpr same)
  buffers := fun _ => rfl

end Runs

namespace OwnedImage

variable (img : OwnedImage) (layout : Layout)

@[simp] theorem turn_handle : (img.turn layout).1.handle = img.handle := by
  unfold OwnedImage.turn
  split <;> rfl

@[simp] theorem turn_capacity : (img.turn layout).1.capacity = img.capacity := by
  unfold OwnedImage.turn
  split <;> rfl

@[simp] theorem turn_layout : (img.turn layout).1.layout = layout := by
  unfold OwnedImage.turn
  split
  · assumption
  · rfl

end OwnedImage

namespace Device

variable {staging : Staging} {d : Device}

theorem get?_modifyImage {handle : Nat} {i : DeviceImage} (found : d.images.get? handle = some i)
    (change : DeviceImage → DeviceImage) : (d.modifyImage handle change).images.get? handle = some (change i) := by
  rw [modifyImage, Table.get?_modify_self, found]
  rfl

theorem texel?_of_get? {handle : Nat} {i : DeviceImage} (found : d.images.get? handle = some i) (layer x y : Nat) :
    d.texel? handle layer x y = i.texel? layer x y := by
  rw [texel?, found]
  rfl

/-- The image of the device is what its owner takes it for. -/
structure Tracks (d : Device) (img : OwnedImage) (i : DeviceImage) : Prop where
  known : img.handle ≤ d.handles
  found : d.images.get? img.handle = some i
  allowed : img.capacity.side ∈ allowedSides
  side : i.side = img.capacity.side
  layers : i.layers = img.capacity.layers
  layout : i.layout = img.layout
  wellFormed : i.WellFormed

theorem Tracks.small {img : OwnedImage} {i : DeviceImage} (tracks : d.Tracks img i) : i.side ≤ largestSide := by
  rw [tracks.side]
  exact le_largestSide tracks.allowed

/-- A turned image differs in its layout only, and the barrier starts from the layout that the image has. -/
theorem Tracks.turn {img : OwnedImage} {i : DeviceImage} (tracks : d.Tracks img i) (staging : Staging)
    (layout : Layout) :
    ∃ after, Runs staging (img.turn layout).2 [img.handle] d after ∧
      after.Tracks (img.turn layout).1 { i with layout } := by
  unfold OwnedImage.turn
  split
  · rename_i same
    have unturned : { i with layout } = i := by
      rw [← same, ← tracks.layout]
    refine ⟨d, Runs.nil _ _ _, ?_⟩
    rw [unturned]
    exact tracks
  · have legal : d.Legal staging (.imageBarrier img.handle img.layout layout img.capacity.layers) := by
      simp [Legal, layout?, tracks.found, tracks.layout]
    refine ⟨_, Runs.single legal rfl, ?_⟩
    exact
      { known := tracks.known
        found := get?_modifyImage tracks.found _
        allowed := tracks.allowed
        side := tracks.side
        layers := tracks.layers
        layout := rfl
        wellFormed := ⟨tracks.wellFormed.layers, tracks.wellFormed.sized⟩ }

theorem Tracks.modify {img : OwnedImage} {i : DeviceImage} {change : DeviceImage → DeviceImage}
    (tracks : d.Tracks img i) (side : (change i).side = i.side) (layers : (change i).layers = i.layers)
    (layout : (change i).layout = i.layout) (wellFormed : (change i).WellFormed) :
    (d.modifyImage img.handle change).Tracks img (change i) where
  known := tracks.known
  found := get?_modifyImage tracks.found _
  allowed := tracks.allowed
  side := side.trans tracks.side
  layers := layers.trans tracks.layers
  layout := layout.trans tracks.layout
  wellFormed := wellFormed

/-- An upload from an aligned staged range into a place of an image that takes transfers. -/
theorem Tracks.upload {img : OwnedImage} {i : DeviceImage} {start : Nat} {place : Placement} (tracks : d.Tracks img i)
    (ready : img.layout = .transferTarget) (within : place.Within img.capacity) (aligned : d.alignment ∣ start)
    (staged : start + place.width * place.height * 4 ≤ staging.size) :
    ∃ after, Runs staging [Frame.uploadCommand img start place] [img.handle] d after ∧
      after.Tracks img (Device.writeRect staging start place.layer place.x place.y place.width place.height i) := by
  have legal : d.Legal staging (Frame.uploadCommand img start place) :=
    ⟨aligned, staged, i, tracks.found, tracks.layout.trans ready, tracks.layers ▸ within.layer,
      tracks.side ▸ within.columns, tracks.side ▸ within.rows⟩
  exact ⟨_, Runs.single legal rfl, tracks.modify rfl rfl rfl (writeRect_wellFormed tracks.wellFormed)⟩

/-- An image that stays is tracked on. -/
theorem Tracks.carry {img : OwnedImage} {i : DeviceImage} {after : Device} (tracks : d.Tracks img i)
    (handles : d.handles ≤ after.handles) (same : after.images.get? img.handle = d.images.get? img.handle) :
    after.Tracks img i :=
  { tracks with
    known := Nat.le_trans tracks.known handles
    found := same.trans tracks.found }

theorem Tracks.of_runs {img : OwnedImage} {i : DeviceImage} {commands : List Command} {touched : List Nat}
    {after : Device} (tracks : d.Tracks img i) (runs : Runs staging commands touched d after)
    (outside : img.handle ∉ touched) : after.Tracks img i :=
  tracks.carry (Nat.le_of_eq runs.handles.symm) (runs.images _ outside)

/-- A copy of the texels that two images have in common, the images being ready for it. -/
theorem Tracks.copy {old new : OwnedImage} {i j : DeviceImage} (source : d.Tracks old i) (target : d.Tracks new j)
    (sourceReady : old.layout = .transferSource) (targetReady : new.layout = .transferTarget)
    (larger : old.capacity.Le new.capacity) (staging : Staging) :
    ∃ after, Runs staging [.copyImage old.handle new.handle old.capacity.side
        (min old.capacity.layers new.capacity.layers)] [new.handle] d after ∧
      after.Tracks new (copyLayers i i.side i.layers j) := by
  have less := larger.1
  have fewer := larger.2
  have legal : d.Legal staging (.copyImage old.handle new.handle old.capacity.side
      (min old.capacity.layers new.capacity.layers)) := by
    refine ⟨i, j, source.found, target.found, source.layout.trans sourceReady, target.layout.trans targetReady, ?_, ?_⟩
    · exact Nat.le_min.mpr ⟨Nat.le_of_eq source.side.symm, by rw [target.side]; exact less⟩
    · exact Nat.le_of_eq (by rw [source.layers, target.layers])
  have effect : d.apply staging (.copyImage old.handle new.handle old.capacity.side
      (min old.capacity.layers new.capacity.layers)) = d.modifyImage new.handle (copyLayers i i.side i.layers) := by
    simp only [apply, source.found, Nat.min_eq_left fewer, source.side, source.layers]
  exact ⟨_, Runs.single legal effect,
    target.modify copyLayers_side copyLayers_layers copyLayers_layout (copyLayers_wellFormed target.wellFormed)⟩

/-- A new image, at least as large, takes over all texels of an old one. -/
theorem Tracks.copyOnto {old new : OwnedImage} {i : DeviceImage} (tracks : d.Tracks old i)
    (created : d.Tracks new (.create new.capacity.side new.capacity.layers)) (distinct : new.handle ≠ old.handle)
    (larger : old.capacity.Le new.capacity) (staging : Staging) :
    ∃ after copied, Runs staging (Frame.copyCommands old new).1 [old.handle, new.handle] d after ∧
      after.Tracks (Frame.copyCommands old new).2 copied ∧
      ∀ layer x y, layer < old.capacity.layers → x < old.capacity.side → y < old.capacity.side →
        copied.texel? layer x y = i.texel? layer x y := by
  obtain ⟨first, runsFirst, source⟩ := tracks.turn staging .transferSource
  obtain ⟨second, runsSecond, target⟩ :=
    (created.of_runs runsFirst (by simpa using distinct)).turn staging .transferTarget
  have sourceLater := source.of_runs runsSecond (by simpa using distinct.symm)
  obtain ⟨third, runsCopy, copied⟩ := sourceLater.copy target (by simp) (by simp) (by simpa using larger) staging
  obtain ⟨fourth, runsReady, ready⟩ := copied.turn staging .shaderRead
  have sourceLast := (sourceLater.of_runs runsCopy (by simpa using distinct.symm)).of_runs runsReady
    (by simpa using distinct.symm)
  obtain ⟨last, runsLast, _⟩ := sourceLast.turn staging .shaderRead
  refine ⟨last, _, ?_, ready.of_runs runsLast (by simpa using distinct), ?_⟩
  · simp only [OwnedImage.turn_handle, OwnedImage.turn_capacity] at runsCopy runsReady runsLast
    have touchesOld : [old.handle] ⊆ [old.handle, new.handle] := by simp
    have touchesNew : [new.handle] ⊆ [old.handle, new.handle] := by simp
    simpa [Frame.copyCommands] using
      ((((runsFirst.mono touchesOld).append (runsSecond.mono touchesNew)).append (runsCopy.mono touchesNew)).append
        (runsReady.mono touchesNew)).append (runsLast.mono touchesOld)
  · intro layer x y inLayers inColumns inRows
    have blank : ∀ layer, (DeviceImage.create new.capacity.side new.capacity.layers).layer? layer = none := by
      intro layer
      simp only [DeviceImage.layer?, DeviceImage.create, Array.getElem?_replicate]
      split <;> rfl
    have side := tracks.side
    have layers := tracks.layers
    let turned : DeviceImage := { i with layout := .transferSource }
    let blankTarget : DeviceImage :=
      { DeviceImage.create new.capacity.side new.capacity.layers with layout := .transferTarget }
    have sideLess : turned.side ≤ blankTarget.side := side ▸ larger.1
    have layersLess : turned.layers ≤ blankTarget.layers := layers ▸ larger.2
    have same : (copyLayers turned turned.side turned.layers blankTarget).texel? layer x y = turned.texel? layer x y :=
      texel?_copyLayers sourceLater.wellFormed target.wellFormed target.small sideLess (Nat.le_refl _) layersLess blank
        (layers ▸ inLayers) (side ▸ inColumns) (side ▸ inRows)
    exact same

/-- There is a buffer of this size. -/
structure HasBuffer (d : Device) (buffer count : Nat) : Prop where
  known : buffer ≤ d.handles
  sized : (d.buffers.get? buffer).map ByteArray.size = some count

theorem HasBuffer.of_runs {buffer count : Nat} {commands : List Command} {touched : List Nat} {after : Device}
    (has : d.HasBuffer buffer count) (runs : Runs staging commands touched d after) : after.HasBuffer buffer count where
  known := runs.handles ▸ has.known
  sized := (runs.buffers buffer).trans has.sized

/-- An upload of a staged range that fills a buffer. -/
theorem HasBuffer.upload {buffer start count : Nat} (has : d.HasBuffer buffer count)
    (aligned : d.alignment ∣ start) (staged : start + count ≤ staging.size) :
    ∃ after, Runs staging [.copyToBuffer start buffer count, .bufferBarrier buffer] [] d after := by
  obtain ⟨bytes, found, size⟩ := Option.map_eq_some_iff.mp has.sized
  let write := fun bytes => blit staging.bytes start bytes 0 count
  have written : (Table.modify buffer write d.buffers).get? buffer = some (write bytes) := by
    rw [Table.get?_modify_self, found]
    rfl
  refine ⟨{ d with buffers := Table.modify buffer write d.buffers }, ⟨?_, ?_, rfl⟩, rfl, fun _ _ => rfl, ?_⟩
  · exact ⟨aligned, staged, bytes, found, Nat.le_of_eq size.symm⟩
  · simp only [Legal, apply]
    rw [written]
    rfl
  · intro handle
    by_cases same : handle = buffer
    · subst same
      rw [written, found, Option.map_some, Option.map_some, blit_size]
    · rw [Table.get?_modify_of_ne _ _ same]

end Device

end TextureLoom.Atlas
