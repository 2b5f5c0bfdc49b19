import Mathlib.Order.Defs.LinearOrder
import Mathlib.Data.Set.Basic

/-!
# Points on a ring

The points on a ring are ordered by their keys.  The first point behind a
position, and the first point at all, stay what they are when other points are
taken away.
-/

namespace TarsCpp.Clockwise

variable {α κ : Type}

/-- No two points lie at the same place. -/
def Apart (key : α → κ) (points : Set α) : Prop :=
  ∀ point ∈ points, ∀ other ∈ points, key point = key other → point = other

variable [LinearOrder κ]

/-- The point with the least key. -/
structure First (key : α → κ) (points : Set α) (point : α) : Prop where
  member : point ∈ points
  least : ∀ other ∈ points, key point ≤ key other

/-- The first point strictly behind a position. -/
structure Next (key : α → κ) (points : Set α) (position : κ) (point : α) :
    Prop where
  member : point ∈ points
  behind : position < key point
  least : ∀ other ∈ points, position < key other → key point ≤ key other

section

variable {key : α → κ} {points fewer : Set α} {position : κ}
  {point other : α}

theorem First.mono (first : First key points point) (subset : fewer ⊆ points)
    (kept : point ∈ fewer) : First key fewer point where
  member := kept
  least := fun _ otherMember => first.least _ (subset otherMember)

theorem Next.mono (next : Next key points position point)
    (subset : fewer ⊆ points) (kept : point ∈ fewer) :
    Next key fewer position point where
  member := kept
  behind := next.behind
  least := fun _ otherMember => next.least _ (subset otherMember)

theorem First.unique (apart : Apart key points)
    (first : First key points point) (second : First key points other) :
    point = other :=
  apart _ first.member _ second.member
    (le_antisymm (first.least _ second.member) (second.least _ first.member))

theorem Next.unique (apart : Apart key points)
    (next : Next key points position point)
    (second : Next key points position other) : point = other :=
  apart _ next.member _ second.member
    (le_antisymm (next.least _ second.member second.behind)
      (second.least _ next.member next.behind))

end

end TarsCpp.Clockwise
