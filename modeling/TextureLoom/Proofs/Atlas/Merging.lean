import TextureLoom.Proofs.Atlas.Shelving

set_option autoImplicit false

namespace TextureLoom.Atlas

namespace Rect

variable {a b c d r whole rest : Rect} {rects : List Rect}

/-- Two rectangles have a union just if they share a whole edge. -/
theorem join?_eq_none_iff : a.join? b = none ↔
    ¬(a.x = b.x ∧ a.width = b.width ∧ (a.bottom = b.y ∨ b.bottom = a.y)) ∧
      ¬(a.y = b.y ∧ a.height = b.height ∧ (a.right = b.x ∨ b.right = a.x)) := by
  unfold join?
  repeat' split
  all_goals simp_all

theorem join?_eq_none_comm : a.join? b = none ↔ b.join? a = none := by
  rw [join?_eq_none_iff, join?_eq_none_iff]
  omega

theorem eq_of_covers (filled : a.isEmpty = false) (same : ∀ x y, a.Covers x y ↔ b.Covers x y) : a = b := by
  have first := (same a.x a.y).mp (covers_of_isEmpty_eq_false filled)
  have filledToo := isEmpty_eq_false_of_covers first
  have last := (same _ _).mp (covers_last filled)
  have firstToo := (same b.x b.y).mpr (covers_of_isEmpty_eq_false filledToo)
  have lastToo := (same _ _).mpr (covers_last filledToo)
  have sides := isEmpty_eq_false_iff.mp filled
  have sidesToo := isEmpty_eq_false_iff.mp filledToo
  obtain ⟨x, y, width, height⟩ := a
  obtain ⟨xToo, yToo, widthToo, heightToo⟩ := b
  simp only [Covers, right, bottom, Rect.mk.injEq] at *
  omega

/-- No two of the rectangles share a whole edge. -/
def Unjoined (rects : List Rect) : Prop := rects.Pairwise fun a b => a.join? b = none

/-- Rectangles that hold the texels of `whole`, each of them once, and no two of which share a whole edge. -/
structure TiledBy (whole : Rect) (rects : List Rect) : Prop where
  tidy : Tidy rects
  covered : ∀ x y, CoveredBy rects x y ↔ whole.Covers x y
  unjoined : Unjoined rects

theorem TiledBy.perm {others : List Rect} (tiled : whole.TiledBy rects) (perm : rects.Perm others) :
    whole.TiledBy others where
  tidy := tiled.tidy.perm perm
  covered := by
    intro x y
    rw [← tiled.covered]
    simp only [CoveredBy, perm.mem_iff]
  unjoined := tiled.unjoined.perm perm join?_eq_none_comm.mp

theorem TiledBy.inside (tiled : whole.TiledBy rects) (member : r ∈ rects) {x y : Nat} (covers : r.Covers x y) :
    whole.Covers x y := (tiled.covered x y).mp ⟨r, member, covers⟩

/-- The rectangle goes from edge to edge of `whole`, along one of its sides. -/
def Cuts (r whole : Rect) : Prop :=
  (r.x = whole.x ∧ r.width = whole.width ∧ (r.y = whole.y ∨ r.bottom = whole.bottom)) ∨
    (r.y = whole.y ∧ r.height = whole.height ∧ (r.x = whole.x ∨ r.right = whole.right))

/-- What is left beside such a rectangle is one rectangle, which shares a whole edge with it. -/
theorem Cuts.exists_rest (cuts : r.Cuts whole) (within : r.right ≤ whole.right ∧ r.bottom ≤ whole.bottom) :
    ∃ rest : Rect, (∀ x y, rest.Covers x y ↔ whole.Covers x y ∧ ¬r.Covers x y) ∧
      (rest.isEmpty = false → r.join? rest ≠ none) := by
  simp only [ne_eq, join?_eq_none_iff, isEmpty_eq_false_iff]
  rcases cuts with ⟨left, wide, top | bottom⟩ | ⟨top, high, left | right⟩
  · refine ⟨⟨whole.x, r.bottom, whole.width, whole.bottom - r.bottom⟩, fun x y => ?_, fun filled => ?_⟩
    all_goals
      simp only [Covers, Rect.right, Rect.bottom, true_or, and_true] at *
      omega
  · refine ⟨⟨whole.x, whole.y, whole.width, r.y - whole.y⟩, fun x y => ?_, fun filled => ?_⟩
    all_goals
      simp only [Covers, Rect.right, Rect.bottom] at *
      omega
  · refine ⟨⟨r.right, whole.y, whole.right - r.right, whole.height⟩, fun x y => ?_, fun filled => ?_⟩
    all_goals
      simp only [Covers, Rect.right, Rect.bottom, true_or, and_true] at *
      omega
  · refine ⟨⟨whole.x, whole.y, r.x - whole.x, whole.height⟩, fun x y => ?_, fun filled => ?_⟩
    all_goals
      simp only [Covers, Rect.right, Rect.bottom] at *
      omega

/-- The rectangle goes over the whole height of a bin, or over its whole width. -/
def Spans (upright : Bool) (width height : Nat) (r : Rect) : Prop :=
  if upright then r.y = 0 ∧ r.height = height else r.x = 0 ∧ r.width = width

namespace TiledBy

/-- A tiled rectangle with texels has a tile for each of them. -/
theorem exists_tile (tiled : whole.TiledBy rects) {x y : Nat} (covers : whole.Covers x y) :
    ∃ r ∈ rects, r.Covers x y := (tiled.covered x y).mpr covers

theorem within (tiled : whole.TiledBy rects) (member : r ∈ rects) :
    (whole.x ≤ r.x ∧ whole.y ≤ r.y) ∧ r.right ≤ whole.right ∧ r.bottom ≤ whole.bottom := by
  have filled := tiled.tidy.filled r member
  have first := tiled.inside member (covers_of_isEmpty_eq_false filled)
  have last := tiled.inside member (covers_last filled)
  simp only [Covers] at first last
  omega

/-- A tile that goes from edge to edge leaves a rectangle for the others. If one tile makes that up, it would have been
joined to the first; so there is none. -/
theorem eq_singleton_of_cuts (tiled : whole.TiledBy rects) (member : r ∈ rects) (cuts : r.Cuts whole)
    (single : ∀ rest : Rect, rest.isEmpty = false → rest.TiledBy (rects.erase r) → rects.erase r = [rest]) :
    rects = [whole] := by
  have perm := List.perm_cons_erase member
  have tiledApart := tiled.perm perm
  obtain ⟨filled, _, tidy⟩ := tidy_cons.mp tiledApart.tidy
  obtain ⟨rest, isRest, joins⟩ := cuts.exists_rest (tiled.within member).2
  have tiledRest : rest.TiledBy (rects.erase r) := by
    refine ⟨tidy, fun x y => ?_, (List.pairwise_cons.mp tiledApart.unjoined).2⟩
    rw [isRest, tiled.tidy.coveredBy_erase member, tiled.covered]
  have none : rest.isEmpty = true := by
    by_contra some
    rw [Bool.not_eq_true] at some
    have alone := single rest some tiledRest
    have unjoined := (List.pairwise_cons.mp tiledApart.unjoined).1 rest (alone ▸ List.mem_singleton_self rest)
    exact joins some unjoined
  have others : rects.erase r = [] := by
    refine List.eq_nil_iff_forall_not_mem.mpr fun other inOthers => ?_
    have covers := tiledRest.inside inOthers (covers_of_isEmpty_eq_false (tidy.filled other inOthers))
    rw [isEmpty_eq_false_of_covers covers] at none
    cases none
  have isWhole : r = whole := by
    refine eq_of_covers filled fun x y => ⟨tiled.inside member, fun covers => ?_⟩
    by_contra outside
    have inRest := (isRest x y).mpr ⟨covers, outside⟩
    rw [isEmpty_eq_false_of_covers inRest] at none
    cases none
  rw [others, isWhole] at perm
  exact List.perm_singleton.mp perm

/-- Where there is always a tile from edge to edge, all tiles have been joined. -/
theorem eq_singleton {P : List Rect → Prop} (fewer : ∀ {some all : List Rect}, some.Sublist all → P all → P some)
    (cut : ∀ {whole : Rect} {rects : List Rect}, P rects → whole.TiledBy rects → whole.isEmpty = false →
      ∃ r ∈ rects, r.Cuts whole)
    (holds : P rects) (filled : whole.isEmpty = false) (tiled : whole.TiledBy rects) : rects = [whole] := by
  induction size : rects.length generalizing rects whole with
  | zero =>
    obtain ⟨r, member, _⟩ := tiled.exists_tile (covers_of_isEmpty_eq_false filled)
    rw [List.length_eq_zero_iff.mp size] at member
    cases member
  | succ count ih =>
    obtain ⟨r, member, cuts⟩ := cut holds tiled filled
    refine tiled.eq_singleton_of_cuts member cuts fun rest filled tiledRest => ?_
    refine ih (fewer List.erase_sublist holds) filled tiledRest ?_
    rw [List.length_erase_of_mem member, size, Nat.add_sub_cancel]

/-- Four tiles that hold a corner each: two of them share a whole edge. -/
theorem exists_join (tiled : whole.TiledBy [a, b, c, d]) (leftTop : a.x = whole.x ∧ a.y = whole.y)
    (rightTop : b.right = whole.right ∧ b.y = whole.y) (leftBottom : c.x = whole.x ∧ c.bottom = whole.bottom)
    (rightBottom : d.right = whole.right ∧ d.bottom = whole.bottom) (cutless : ∀ r ∈ [a, b, c, d], ¬r.Cuts whole) :
    ¬(a.join? b = none ∧ a.join? c = none) := by
  have held (x y : Nat) (covers : whole.Covers x y) :
      a.Covers x y ∨ b.Covers x y ∨ c.Covers x y ∨ d.Covers x y := by
    simpa using tiled.exists_tile covers
  have tile (r : Rect) (member : r ∈ [a, b, c, d]) :=
    And.intro (tiled.tidy.filled r member) (And.intro (tiled.within member) (cutless r member))
  have apart := tiled.tidy.apart
  simp only [List.mem_cons, List.not_mem_nil, or_false, forall_eq_or_imp, forall_eq, List.pairwise_cons,
    isEmpty_eq_false_iff, Cuts] at tile apart
  obtain ⟨tileA, tileB, tileC, tileD⟩ := tile
  obtain ⟨⟨ab, ac, ad⟩, ⟨bc, bd⟩, cd, -⟩ := apart
  clear cutless tiled
  simp only [right, bottom] at leftTop rightTop leftBottom rightBottom tileA tileB tileC tileD
  -- no tile goes along a whole edge, so each ends before the next corner
  have endA : 0 < a.width ∧ 0 < a.height ∧ a.x + a.width < whole.x + whole.width ∧
      a.y + a.height < whole.y + whole.height := by
    clear tileB tileC tileD rightTop leftBottom rightBottom
    omega
  have endB : 0 < b.width ∧ 0 < b.height ∧ whole.x < b.x ∧ b.y + b.height < whole.y + whole.height := by
    clear tileA tileC tileD leftTop leftBottom rightBottom endA
    omega
  have endC : 0 < c.width ∧ 0 < c.height ∧ c.x + c.width < whole.x + whole.width ∧ whole.y < c.y := by
    clear tileA tileB tileD leftTop rightTop rightBottom endA endB
    omega
  have endD : 0 < d.width ∧ 0 < d.height ∧ whole.x < d.x ∧ whole.y < d.y := by
    clear tileA tileB tileC leftTop rightTop leftBottom endA endB endC
    omega
  clear tileA tileB tileC tileD
  -- the tile behind one in a corner begins where that one ends
  have besideA : b.x = a.x + a.width := by
    have held := held (a.x + a.width) whole.y
    have apart := ab b.x whole.y
    simp only [Covers, right, bottom] at held apart
    omega
  have besideC : d.x = c.x + c.width := by
    have held := held (c.x + c.width) (whole.y + whole.height - 1)
    have apart := cd d.x (whole.y + whole.height - 1)
    simp only [Covers, right, bottom] at held apart
    omega
  have belowA : c.y = a.y + a.height := by
    have held := held whole.x (a.y + a.height)
    have apart := ac whole.x c.y
    simp only [Covers, right, bottom] at held apart
    omega
  have belowB : d.y = b.y + b.height := by
    have held := held (whole.x + whole.width - 1) (b.y + b.height)
    have apart := bd (whole.x + whole.width - 1) d.y
    simp only [Covers, right, bottom] at held apart
    omega
  rw [join?_eq_none_iff, join?_eq_none_iff]
  rintro ⟨⟨-, notBeside⟩, notBelow, -⟩
  simp only [right, bottom] at notBeside notBelow
  -- a shorter tile at the left top is passed below by the tile under it, which then meets the right one
  rcases Nat.lt_trichotomy a.height b.height with lower | same | higher
  · have held := held (a.x + a.width - 1) (a.y + a.height)
    have apart := bc (c.x + c.width - 1) (a.y + a.height)
    simp only [Covers, right, bottom] at held apart
    omega
  · omega
  · have held := held b.x (b.y + b.height)
    have apart := ad (a.x + a.width - 1) (b.y + b.height)
    simp only [Covers, right, bottom] at held apart
    omega

theorem width_eq_of_edges (left : r.x = whole.x) (edge : r.right = whole.right) : r.width = whole.width := by
  simp only [right] at edge
  omega

theorem height_eq_of_edges (top : r.y = whole.y) (edge : r.bottom = whole.bottom) : r.height = whole.height := by
  simp only [bottom] at edge
  omega

/-- Fewer than five tiles: one of them goes from edge to edge, as it is with two, three or four tiles unless each of
four holds a corner. -/
theorem exists_cuts (tiled : whole.TiledBy rects) (filled : whole.isEmpty = false) (few : rects.length < 5) :
    ∃ r ∈ rects, r.Cuts whole := by
  by_contra cutless
  simp only [not_exists, not_and] at cutless
  have sides := isEmpty_eq_false_iff.mp filled
  have corner (x y : Nat) (columns : whole.x ≤ x ∧ x < whole.x + whole.width)
      (rows : whole.y ≤ y ∧ y < whole.y + whole.height) : whole.Covers x y := ⟨columns.1, columns.2, rows⟩
  have touches (r : Rect) (member : r ∈ rects) := tiled.within member
  obtain ⟨a, isA, inA⟩ := tiled.exists_tile (corner whole.x whole.y (by omega) (by omega))
  obtain ⟨b, isB, inB⟩ := tiled.exists_tile (corner (whole.x + whole.width - 1) whole.y (by omega) (by omega))
  obtain ⟨c, isC, inC⟩ := tiled.exists_tile (corner whole.x (whole.y + whole.height - 1) (by omega) (by omega))
  obtain ⟨d, isD, inD⟩ := tiled.exists_tile
    (corner (whole.x + whole.width - 1) (whole.y + whole.height - 1) (by omega) (by omega))
  have leftTop : a.x = whole.x ∧ a.y = whole.y := by
    have within := touches a isA
    simp only [Covers, right, bottom] at *
    omega
  have rightTop : b.right = whole.right ∧ b.y = whole.y := by
    have within := touches b isB
    simp only [Covers, right, bottom] at *
    omega
  have leftBottom : c.x = whole.x ∧ c.bottom = whole.bottom := by
    have within := touches c isC
    simp only [Covers, right, bottom] at *
    omega
  have rightBottom : d.right = whole.right ∧ d.bottom = whole.bottom := by
    have within := touches d isD
    simp only [Covers, right, bottom] at *
    omega
  -- a tile in two corners goes from edge to edge, so there are four tiles here
  have distinct : [a, b, c, d].Nodup := by
    simp only [List.nodup_cons, List.mem_cons, List.not_mem_nil, or_false, not_or, not_false_eq_true, and_true,
      List.nodup_nil]
    refine ⟨⟨?_, ?_, ?_⟩, ⟨?_, ?_⟩, ?_⟩
    · rintro rfl
      exact cutless a isA (.inl ⟨leftTop.1, width_eq_of_edges leftTop.1 rightTop.1, .inl leftTop.2⟩)
    · rintro rfl
      exact cutless a isA (.inr ⟨leftTop.2, height_eq_of_edges leftTop.2 leftBottom.2, .inl leftTop.1⟩)
    · rintro rfl
      exact cutless a isA (.inl ⟨leftTop.1, width_eq_of_edges leftTop.1 rightBottom.1, .inl leftTop.2⟩)
    · rintro rfl
      exact cutless b isB (.inl ⟨leftBottom.1, width_eq_of_edges leftBottom.1 rightTop.1, .inl rightTop.2⟩)
    · rintro rfl
      exact cutless b isB (.inr ⟨rightTop.2, height_eq_of_edges rightTop.2 rightBottom.2, .inr rightTop.1⟩)
    · rintro rfl
      exact cutless c isC (.inl ⟨leftBottom.1, width_eq_of_edges leftBottom.1 rightBottom.1, .inr leftBottom.2⟩)
  have subset : [a, b, c, d] ⊆ rects := by simp [isA, isB, isC, isD]
  have perm : rects.Perm [a, b, c, d] :=
    ((List.subperm_of_subset distinct subset).perm_of_length_le (Nat.le_of_lt_succ few)).symm
  have fourTiled := tiled.perm perm
  have unjoined := fourTiled.unjoined
  simp only [Unjoined, List.pairwise_cons, List.mem_cons, forall_eq_or_imp] at unjoined
  exact fourTiled.exists_join leftTop rightTop leftBottom rightBottom
    (fun r member => cutless r (perm.mem_iff.mpr member)) ⟨unjoined.1.1, unjoined.1.2.1⟩

/-- Where all tiles are of one height, or all of one width, those at an edge go along all of it. -/
theorem exists_cuts_of_spans {upright : Bool} {width height : Nat} (tiled : whole.TiledBy rects)
    (filled : whole.isEmpty = false) (all : ∀ r ∈ rects, r.Spans upright width height) : ∃ r ∈ rects, r.Cuts whole := by
  obtain ⟨r, member, inR⟩ := tiled.exists_tile (covers_of_isEmpty_eq_false filled)
  obtain ⟨q, memberToo, inQ⟩ := tiled.exists_tile (covers_last filled)
  refine ⟨r, member, ?_⟩
  have sides := isEmpty_eq_false_iff.mp filled
  have within := tiled.within member
  have withinToo := tiled.within memberToo
  have spans := all r member
  have spansToo := all q memberToo
  simp only [Covers, right, bottom] at inR inQ within withinToo
  cases upright
  · simp only [Spans, Bool.false_eq_true, ↓reduceIte] at spans spansToo
    refine .inl ⟨?_, ?_, .inl ?_⟩
    all_goals omega
  · simp only [Spans, ↓reduceIte] at spans spansToo
    refine .inr ⟨?_, ?_, .inl ?_⟩
    all_goals omega

/-- A tile as large as all of them together is the only one. -/
theorem eq_singleton_of_mem (tiled : whole.TiledBy rects) (member : whole ∈ rects) : rects = [whole] := by
  have perm := List.perm_cons_erase member
  obtain ⟨_, outside, tidy⟩ := tidy_cons.mp (tiled.tidy.perm perm)
  have others : rects.erase whole = [] := by
    refine List.eq_nil_iff_forall_not_mem.mpr fun other inOthers => ?_
    have covers := covers_of_isEmpty_eq_false (tidy.filled other inOthers)
    exact outside _ _ (tiled.inside (List.mem_of_mem_erase inOthers) covers) ⟨other, inOthers, covers⟩
  rw [others] at perm
  exact List.perm_singleton.mp perm

end TiledBy

end Rect

namespace Bin

variable {a r : Rect} {rects : List Rect} {upright : Bool} {width height : Nat}

theorem join?_of_joinInto (alone : joinInto a rects = none) : ∀ b ∈ rects, a.join? b = none := by
  induction rects with
  | nil => simp
  | cons b rest ih =>
    unfold joinInto at alone
    split at alone
    · cases alone
    · rename_i unjoined
      simpa [unjoined] using ih (Option.map_eq_none_iff.mp alone)

theorem unjoined_of_joinOnce (done : joinOnce rects = none) : Rect.Unjoined rects := by
  induction rects with
  | nil => exact List.Pairwise.nil
  | cons a rest ih =>
    unfold joinOnce at done
    split at done
    · cases done
    · rename_i alone
      exact List.pairwise_cons.mpr ⟨join?_of_joinInto alone, ih (Option.map_eq_none_iff.mp done)⟩

theorem joinOnce_joinAll (rects : List Rect) : joinOnce (joinAll rects) = none := by
  induction rects using joinAll.induct with
  | case1 rects done =>
    rw [joinAll]
    split
    · exact done
    · simp_all
  | case2 rects joined once shorter ih =>
    rw [joinAll]
    split
    · simp_all
    · rename_i found
      rw [once] at found
      cases found
      exact ih

/-- Where a rectangle was given back, no two free ones share a whole edge. -/
theorem unjoined_release (b : Bin) (r : Rect) : Rect.Unjoined (b.release r).free :=
  (unjoined_of_joinOnce (joinOnce_joinAll _)).sublist (prune_sublist _)

/-- All free rectangles go over the whole height, or all over the whole width. -/
def Spanned (upright : Bool) (width height : Nat) (b : Bin) : Prop := ∀ r ∈ b.free, r.Spans upright width height

variable {b : Bin}

theorem Spanned.occupy (spanned : b.Spanned upright width height) (spans : r.Spans upright width height) :
    (b.occupy r).Spanned upright width height := by
  intro part member
  have isPart := (List.mem_filter.mp ((prune_sublist _).subset member)).1
  obtain ⟨whole, isFree, isPart⟩ := List.mem_flatMap.mp isPart
  have spansWhole := spanned whole isFree
  unfold Rect.minus at isPart
  split at isPart
  · rename_i meets
    rw [Rect.intersects_iff] at meets
    simp only [List.mem_append, List.mem_ite_nil_right, List.mem_singleton] at isPart
    rcases isPart with ((⟨_, rfl⟩ | ⟨_, rfl⟩) | ⟨_, rfl⟩) | ⟨_, rfl⟩
    all_goals
      cases upright
      all_goals
        simp only [Rect.Spans, Bool.false_eq_true, ↓reduceIte, Rect.right, Rect.bottom] at *
        omega
  · cases List.mem_singleton.mp isPart
    exact spansWhole

theorem forall_joinInto {P : Rect → Prop} {union : Rect} {others : List Rect}
    (unites : ∀ {a b union : Rect}, P a → P b → a.join? b = some union → P union) (first : P a) (all : ∀ r ∈ rects, P r)
    (joined : joinInto a rects = some (union, others)) : ∀ r ∈ union :: others, P r := by
  induction rects generalizing others with
  | nil => cases joined
  | cons b rest ih =>
    rw [List.forall_mem_cons] at all
    unfold joinInto at joined
    split at joined
    · rename_i isUnion
      cases joined
      exact List.forall_mem_cons.mpr ⟨unites first all.1 isUnion, all.2⟩
    · obtain ⟨⟨found, tail⟩, deeper, same⟩ := Option.map_eq_some_iff.mp joined
      cases same
      have later := List.forall_mem_cons.mp (ih all.2 deeper)
      exact List.forall_mem_cons.mpr ⟨later.1, List.forall_mem_cons.mpr ⟨all.1, later.2⟩⟩

theorem forall_joinOnce {P : Rect → Prop} {joined : List Rect}
    (unites : ∀ {a b union : Rect}, P a → P b → a.join? b = some union → P union) (all : ∀ r ∈ rects, P r)
    (once : joinOnce rects = some joined) : ∀ r ∈ joined, P r := by
  induction rects generalizing joined with
  | nil => cases once
  | cons a rest ih =>
    rw [List.forall_mem_cons] at all
    unfold joinOnce at once
    split at once
    · rename_i found
      cases once
      exact forall_joinInto unites all.1 all.2 found
    · obtain ⟨tail, later, same⟩ := Option.map_eq_some_iff.mp once
      subst same
      exact List.forall_mem_cons.mpr ⟨all.1, ih all.2 later⟩

theorem Spanned.release (spanned : b.Spanned upright width height) (columns : 0 < width) (rows : 0 < height)
    (spans : r.Spans upright width height) : (b.release r).Spanned upright width height := by
  have unites {a b union : Rect} (spansA : a.Spans upright width height) (spansB : b.Spans upright width height)
      (joined : a.join? b = some union) : union.Spans upright width height := by
    unfold Rect.join? at joined
    cases upright
    all_goals
      repeat' split at joined
      all_goals
        cases joined
        try
          simp only [Rect.Spans, Bool.false_eq_true, ↓reduceIte, Rect.right, Rect.bottom] at *
          omega
  have all : ∀ free ∈ b.free ++ [r], free.Spans upright width height := by
    intro free member
    rcases List.mem_append.mp member with before | isR
    · exact spanned free before
    · cases List.mem_singleton.mp isR
      exact spans
  have joined : ∀ free ∈ joinAll (b.free ++ [r]), free.Spans upright width height :=
    joinAll_induction (motive := fun rects => ∀ free ∈ rects, free.Spans upright width height) all
      fun _ _ once before => forall_joinOnce unites before once
  exact fun free member => joined free ((prune_sublist _).subset member)

/-- A rectangle of full size goes into a bin that is tiled by its free rectangles just if there is only one of them. -/
theorem insert_whole (columns : 0 < width) (rows : 0 < height)
    (tiled : Rect.TiledBy ⟨0, 0, width, height⟩ b.free) (fit : Fit) :
    (b.insert width height fit).map (·.1) =
      if b.free = [⟨0, 0, width, height⟩] then some ⟨0, 0, width, height⟩ else none := by
  have positive : ¬(width = 0 ∨ height = 0) := by omega
  rw [insert, if_neg positive, Option.map_map]
  split
  · rename_i single
    have room : ¬(width < width ∨ height < height) := by omega
    simp only [single, bestFree?, List.foldl_cons, List.foldl_nil, if_neg room, Option.map_some, Function.comp_apply]
  · rename_i several
    refine Option.map_eq_none_iff.mpr (Option.eq_none_iff_forall_ne_some.mpr fun r found => several ?_)
    obtain ⟨member, wide, high⟩ := mem_of_bestFree? found
    have within := tiled.within member
    have isWhole : r = ⟨0, 0, width, height⟩ := by
      obtain ⟨x, y, columns, rows⟩ := r
      simp only [Rect.right, Rect.bottom, Rect.mk.injEq] at *
      omega
    exact tiled.eq_singleton_of_mem (isWhole ▸ member)

end Bin

/-- What is placed goes over the whole height of a bin, or over its whole width. -/
def Move.Spans (upright : Bool) (width height : Nat) : Move → Prop
  | .insert columns rows _ => if upright then rows = height else columns = width
  | .occupy r => r.Spans upright width height
  | .release _ => True

namespace Shelf

variable {s last : Shelf} {move : Move} {moves : List Move} {upright : Bool} {width height : Nat}

/-- Once nothing is taken, no two free rectangles share a whole edge: the last call gave a rectangle back. -/
theorem unjoined_step (unjoined : s.taken = [] → Rect.Unjoined s.bin.free) (back : (s.step move).taken = []) :
    Rect.Unjoined (s.step move).bin.free := by
  cases move with
  | insert columns rows fit =>
    simp only [step] at back ⊢
    rcases inserted : s.bin.insert columns rows fit with _ | ⟨placed, after⟩
    · rw [inserted] at back
      exact unjoined back
    · rw [inserted] at back
      cases back
  | occupy r => cases back
  | release r => exact Bin.unjoined_release s.bin r

theorem unjoined_run (run : Run s moves last) (unjoined : s.taken = [] → Rect.Unjoined s.bin.free)
    (back : last.taken = []) : Rect.Unjoined last.bin.free := by
  induction run with
  | done s => exact unjoined back
  | more allowed _ ih => exact ih (unjoined_step unjoined) back

/-- All rectangles, free ones and taken ones, go over the whole height, or all over the whole width. -/
structure Spanned (upright : Bool) (width height : Nat) (s : Shelf) : Prop where
  free : s.bin.Spanned upright width height
  taken : ∀ r ∈ s.taken, r.Spans upright width height

theorem spanned_empty (upright : Bool) (width height : Nat) : Spanned upright width height (empty width height) where
  free := by
    intro r member
    cases List.mem_singleton.mp member
    cases upright <;> exact ⟨rfl, rfl⟩
  taken := fun _ member => absurd member List.not_mem_nil

theorem Spanned.step (spanned : s.Spanned upright width height) (columns : 0 < width) (rows : 0 < height)
    (allowed : s.Allows move) (spans : move.Spans upright width height) :
    (s.step move).Spanned upright width height := by
  cases move with
  | insert columns rows fit =>
    simp only [Shelf.step, Bin.insert]
    split
    · exact spanned
    · rename_i placed after inserted
      split at inserted
      · cases inserted
      · obtain ⟨r, found, same⟩ := Option.map_eq_some_iff.mp inserted
        cases same
        have spansFree := spanned.free r (Bin.mem_of_bestFree? found).1
        have spansPlaced : Rect.Spans upright width height ⟨r.x, r.y, columns, rows⟩ := by
          cases upright
          · exact ⟨spansFree.1, spans⟩
          · exact ⟨spansFree.1, spans⟩
        exact ⟨spanned.free.occupy spansPlaced, List.forall_mem_cons.mpr ⟨spansPlaced, spanned.taken⟩⟩
  | occupy r => exact ⟨spanned.free.occupy spans, List.forall_mem_cons.mpr ⟨spans, spanned.taken⟩⟩
  | release r =>
    exact ⟨spanned.free.release columns rows (spanned.taken r allowed),
      fun other member => spanned.taken other (List.mem_of_mem_erase member)⟩

theorem Spanned.run (spanned : s.Spanned upright width height) (columns : 0 < width) (rows : 0 < height)
    (run : Run s moves last) (spans : ∀ move ∈ moves, move.Spans upright width height) :
    last.Spanned upright width height := by
  induction run with
  | done s => exact spanned
  | more allowed _ ih =>
    rw [List.forall_mem_cons] at spans
    exact ih (spanned.step columns rows allowed spans.1) spans.2

/-- The free rectangles tile a bin in which nothing is taken. -/
theorem tiledBy_of_run (run : Run (empty width height) moves s) (back : s.taken = []) (columns : 0 < width)
    (rows : 0 < height) : Rect.TiledBy ⟨0, 0, width, height⟩ s.bin.free where
  tidy := ((exact_empty width height).run run).tidy columns rows
  covered := by
    intro x y
    have free := ((exact_empty width height).run run).free x y
    rw [Bin.Frees, back] at free
    simpa [coveredBy_nil, Rect.Covers, Rect.right, Rect.bottom] using free
  unjoined := unjoined_run run (fun _ => List.pairwise_singleton _ _) back

/-- Once all that was taken from a bin is given back, there is one free rectangle, the whole bin, or there are at least
five; only one if all that was placed went over the whole height, or all over the whole width. In a bin with texels they
tile it, and no two of them share a whole edge. A rectangle of the size of the bin goes into it again just if it has
texels and there is only one free rectangle. -/
theorem merged_of_run (run : Run (empty width height) moves s) (back : s.taken = []) :
    (s.bin.free = [⟨0, 0, width, height⟩] ∨ 5 ≤ s.bin.free.length) ∧
    (∀ upright, (∀ move ∈ moves, move.Spans upright width height) → s.bin.free = [⟨0, 0, width, height⟩]) ∧
    (0 < width → 0 < height → Rect.TiledBy ⟨0, 0, width, height⟩ s.bin.free) ∧
    ∀ fit, (s.bin.insert width height fit).map (·.1) =
      if 0 < width ∧ 0 < height ∧ s.bin.free = [⟨0, 0, width, height⟩] then some ⟨0, 0, width, height⟩ else none := by
  by_cases bare : width = 0 ∨ height = 0
  · have single : s.bin.free = [⟨0, 0, width, height⟩] := by
      rw [((exact_empty width height).run run).bare bare]
      rfl
    have none : ¬(0 < width ∧ 0 < height ∧ s.bin.free = [⟨0, 0, width, height⟩]) := by omega
    refine ⟨.inl single, fun _ _ => single, by omega, fun fit => ?_⟩
    rw [if_neg none, Bin.insert, if_pos bare, Option.map_none]
  have columns : 0 < width := by omega
  have rows : 0 < height := by omega
  have tiled := tiledBy_of_run run back columns rows
  have filled : Rect.isEmpty ⟨0, 0, width, height⟩ = false := Rect.isEmpty_eq_false_iff.mpr ⟨columns, rows⟩
  refine ⟨?_, ?_, fun _ _ => tiled, fun fit => ?_⟩
  · rcases Nat.lt_or_ge s.bin.free.length 5 with few | many
    · exact .inl (Rect.TiledBy.eq_singleton (P := fun rects => rects.length < 5)
        (fun sublist few => Nat.lt_of_le_of_lt sublist.length_le few)
        (fun few tiled filled => tiled.exists_cuts filled few) few filled tiled)
    · exact .inr many
  · intro upright spans
    have spanned := (spanned_empty upright width height).run columns rows run spans
    exact Rect.TiledBy.eq_singleton (P := fun rects => ∀ r ∈ rects, r.Spans upright width height)
      (fun sublist all r member => all r (sublist.subset member))
      (fun all tiled filled => tiled.exists_cuts_of_spans filled all) spanned.free filled tiled
  · simp only [Bin.insert_whole columns rows tiled, columns, rows, true_and]

/-- Three shelves of a bin, given back in another order. -/
def shelving : List Move :=
  [.insert 4 1 .bestArea, .insert 4 2 .bestShortSide, .insert 4 1 .bestArea, .release ⟨0, 1, 4, 2⟩,
    .release ⟨0, 0, 4, 1⟩, .release ⟨0, 3, 4, 1⟩]

theorem merged_shelving : Run (empty 4 4) shelving (shelving.foldl step (empty 4 4)) ∧
    (shelving.foldl step (empty 4 4)).taken = [] ∧
    (shelving.foldl step (empty 4 4)).bin.free = [⟨0, 0, 4, 4⟩] := by
  have run : Run (empty 4 4) shelving (shelving.foldl step (empty 4 4)) := by
    refine .more trivial (.more trivial (.more trivial (.more ?_ (.more ?_ (.more ?_ (.done _))))))
    all_goals
      show _ ∈ Shelf.taken _
      decide +kernel
  have back : (shelving.foldl step (empty 4 4)).taken = [] := by decide +kernel
  refine ⟨run, back, (merged_of_run run back).2.1 false ?_⟩
  simp [shelving, Move.Spans]

/-- Three tiles around the middle of a bin. What they leave free is joined across them, and the space they give back
then lies around the middle: each free rectangle ends at the side of the next one. -/
def pinwheel : List Move :=
  [.insert 3 1 .bestArea, .insert 1 2 .bestArea, .insert 2 1 .bestArea, .release ⟨0, 0, 3, 1⟩, .release ⟨0, 1, 1, 2⟩,
    .release ⟨1, 1, 2, 1⟩]

theorem unmerged_pinwheel : ¬∀ width height moves s, 0 < width → 0 < height → Run (empty width height) moves s →
    (∀ r, Move.occupy r ∉ moves) → s.taken = [] →
      s.bin.free = [⟨0, 0, width, height⟩] ∨ ∃ fit, (s.bin.insert width height fit).isSome := by
  intro merged
  have run : Run (empty 4 3) pinwheel (pinwheel.foldl step (empty 4 3)) := by
    refine .more trivial (.more trivial (.more trivial (.more ?_ (.more ?_ (.more ?_ (.done _))))))
    all_goals
      show _ ∈ Shelf.taken _
      decide +kernel
  rcases merged 4 3 pinwheel _ (by decide) (by decide) run (by simp [pinwheel]) (by decide +kernel) with
    single | ⟨fit, inserted⟩
  · exact absurd single (by decide +kernel)
  · cases fit
    · exact absurd inserted (by decide +kernel)
    · exact absurd inserted (by decide +kernel)

end Shelf

end TextureLoom.Atlas
