import Mathlib.Logic.Basic

/-! Displays made of pictures at fixed places. Each place shows one of several faces. A face may
leave pixels of its place as they are, so what a place shows is decided by the pixels that the
face covers. Nothing here depends on a particular display. -/
namespace Cpen311.Canvas

structure Layout (Pixel Place Face : Type) where
  covers : Place → Face → Pixel → Bool
  /-- No pixel belongs to two places. -/
  apart : ∀ {a b f g pixel}, covers a f pixel → covers b g pixel → a = b
  /-- Two faces of a place compete for a pixel, so that both cannot be seen. -/
  shared : ∀ a f g, ∃ pixel, covers a f pixel ∧ covers a g pixel

/-- What was painted last at each pixel. -/
abbrev Painting (Pixel Place Face : Type) := Pixel → Option (Place × Face)

section Layout
variable {Pixel Place Face : Type} (layout : Layout Pixel Place Face)

def paint (painting : Painting Pixel Place Face) (place : Place) (face : Face) :
    Painting Pixel Place Face :=
  fun pixel => if layout.covers place face pixel then some (place, face) else painting pixel

def Shows (painting : Painting Pixel Place Face) (place : Place) (face : Face) : Prop :=
  ∀ pixel, layout.covers place face pixel → painting pixel = some (place, face)

/-- Paints some of the places, in order. -/
def redraw (face : Place → Face) (places : List Place) (painting : Painting Pixel Place Face) :
    Painting Pixel Place Face :=
  places.foldl (fun before place => paint layout before place (face place)) painting

variable {layout}

theorem shows_paint_same (painting : Painting Pixel Place Face) (place : Place)
    (face other : Face) :
    Shows layout (paint layout painting place face) place other ↔ other = face := by
  constructor
  · intro shows
    obtain ⟨pixel, first, second⟩ := layout.shared place face other
    have seen := shows pixel second
    rw [paint, if_pos first] at seen
    cases seen
    rfl
  · rintro rfl pixel covered
    exact if_pos covered

theorem shows_paint_other (painting : Painting Pixel Place Face) {place other : Place}
    (face shown : Face) (distinct : other ≠ place) :
    Shows layout (paint layout painting place face) other shown ↔
      Shows layout painting other shown := by
  have kept (pixel : Pixel) (covered : layout.covers other shown pixel) :
      paint layout painting place face pixel = painting pixel :=
    if_neg fun both => distinct (layout.apart covered both)
  exact forall₂_congr fun pixel covered => by rw [kept pixel covered]

variable [DecidableEq Place]

/-- After a redraw the painted places show their new faces, and no other place has changed. -/
theorem shows_redraw (face : Place → Face) (places : List Place)
    (painting : Painting Pixel Place Face) (place : Place) (shown : Face) :
    Shows layout (redraw layout face places painting) place shown ↔
      if place ∈ places then shown = face place else Shows layout painting place shown := by
  induction places generalizing painting with
  | nil => rfl
  | cons first rest ih =>
      rw [redraw, List.foldl_cons, ← redraw, ih]
      by_cases later : place ∈ rest
      · rw [if_pos later, if_pos (List.mem_cons_of_mem first later)]
      · rw [if_neg later]
        by_cases same : place = first
        · rw [same, if_pos List.mem_cons_self, shows_paint_same]
        · rw [if_neg (by simp [same, later]), shows_paint_other painting _ _ same]

end Layout

end Cpen311.Canvas
