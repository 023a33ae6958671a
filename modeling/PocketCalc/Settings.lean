/-!
# Settings

How a calculator shows its results: with how many places, and by which text it marks an error.
-/

namespace PocketCalc

/-- The largest number of places that can be set. -/
def maxPlaces : Nat := 30

/-- The text that marks an error unless another one is set. -/
def defaultMarker : List Char := ['E', 'r', 'r', 'o', 'r']

/-- The settings of a calculator. -/
structure Settings where
  /-- The number of places that a result is shown with at most. -/
  places : Nat := 10
  /-- The text that marks an error. -/
  marker : List Char := defaultMarker
  /-- The number of places is limited. -/
  places_le : places ≤ maxPlaces := by decide
  /-- The text that marks an error is not empty. -/
  marker_ne_nil : marker ≠ [] := by decide

namespace Settings

/-- The settings with another number of places, or the largest that can be set. -/
def withPlaces (s : Settings) (places : Nat) : Settings :=
  { s with places := min places maxPlaces, places_le := Nat.min_le_right _ _ }

/-- The settings with another marker; the default one in place of an empty text. -/
def withMarker (s : Settings) (marker : List Char) : Settings :=
  if h : marker = [] then { s with marker := defaultMarker, marker_ne_nil := by decide }
  else { s with marker := marker, marker_ne_nil := h }

end Settings

end PocketCalc
