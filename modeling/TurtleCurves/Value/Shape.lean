import TurtleCurves.Value

/-!
This module contains the shapes of nested lists. Lists whose items all have one shape have a shape
themselves, as tables do; everything that is no list is a single cell.
-/

namespace TurtleCurves
namespace Value

mutual

/-- The lengths of a regularly nested list, from the outside in. -/
def shape? : Value → Option (List Nat)
  | list items => (commonShape? items).map (items.length :: ·)
  | _ => some []

/-- The shape that all items have; of no items at all it is that of a cell. -/
def commonShape? : List Value → Option (List Nat)
  | [] => some []
  | [item] => shape? item
  | item :: rest =>
    match shape? item, commonShape? rest with
    | some a, some b => if a = b then some a else none
    | _, _ => none

end

end Value
end TurtleCurves
