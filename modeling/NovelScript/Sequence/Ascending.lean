import Std.Data.TreeSet.Lemmas

/-!
The distinct numbers of a list in ascending order.
-/

namespace NovelScript

def ascending (numbers : List UInt32) : List UInt32 := (Std.TreeSet.ofList numbers).toList

theorem ascending_singleton (n : UInt32) : ascending [n] = [n] := rfl

theorem mem_ascending {n : UInt32} {numbers : List UInt32} :
    n ∈ ascending numbers ↔ n ∈ numbers := by
  rw [ascending, Std.TreeSet.mem_toList, Std.TreeSet.mem_ofList, List.contains_iff_mem]

theorem pairwise_ascending (numbers : List UInt32) : (ascending numbers).Pairwise (· < ·) := by
  refine Std.TreeSet.ordered_toList.imp fun {a b} h ↦ ?_
  exact Std.compare_eq_lt.1 h

end NovelScript
