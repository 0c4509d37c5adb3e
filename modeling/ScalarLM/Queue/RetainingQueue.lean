import Mathlib.Data.Finset.Card
import Mathlib.Data.Finset.Dedup
import ScalarLM.Queue.AckQueue

/-! `clear_acked_data` with its bounds: it keeps the newest acked rows. -/

namespace ScalarLM.Queue

/-- The defaults of `clear_acked_data`. -/
def keepLatest : Nat := 1000

def maxDelete : Nat := 1000

section Window

variable {Item : Type}

def ackedIds (rows : List (Row Item)) : Finset Nat :=
  ((rows.filter fun row => row.status = .acked).map Row.id).toFinset

def newerAcked (rows : List (Row Item)) (id : Nat) : Nat :=
  ((ackedIds rows).filter (id < ·)).card

/-- The id is not among the newest, but among the ones deleted next. -/
def InWindow (rows : List (Row Item)) (id : Nat) : Prop :=
  keepLatest ≤ newerAcked rows id ∧ newerAcked rows id < keepLatest + maxDelete

instance (rows : List (Row Item)) (id : Nat) : Decidable (InWindow rows id) :=
  inferInstanceAs (Decidable (_ ∧ _))

theorem mem_ackedIds (rows : List (Row Item)) (id : Nat) :
    id ∈ ackedIds rows ↔ ∃ row ∈ rows, row.id = id ∧ row.status = .acked := by
  rw [ackedIds, List.mem_toFinset, List.mem_map]
  constructor
  · intro given
    rcases given with ⟨row, member, rfl⟩
    have both := List.mem_filter.mp member
    exact ⟨row, both.1, rfl, of_decide_eq_true both.2⟩
  · intro given
    rcases given with ⟨row, member, rfl, acked⟩
    exact ⟨row, List.mem_filter.mpr ⟨member, decide_eq_true acked⟩, rfl⟩

end Window

/-- A queue whose `clear_acked_data` deletes the acked rows within the bounds. -/
structure RetainingQueue (Store Item : Type) extends AckQueue Store Item where
  clear_acked : ∀ store, ∀ row ∈ queue store, row.status = .acked →
    (row ∈ queue (clearAckedData store) ↔ ¬ InWindow (queue store) row.id)

namespace Table

variable {Item : Type}

def clearOldAcked (table : Table Item) : Table Item where
  rows := table.rows.filter fun row => ¬ (row.status = .acked ∧ InWindow table.rows row.id)
  lastId := table.lastId
  sorted := table.sorted.sublist List.filter_sublist
  bounded := fun row member => table.bounded row (List.mem_filter.mp member).1

theorem mem_clearOldAcked (table : Table Item) (row : Row Item) :
    row ∈ table.clearOldAcked.rows ↔
      row ∈ table.rows ∧ ¬ (row.status = .acked ∧ InWindow table.rows row.id) := by
  rw [clearOldAcked, List.mem_filter, decide_eq_true_iff]

end Table

def retainingTable (Item : Type) : RetainingQueue (Table Item) Item where
  toAckQueue := { tableQueue Item with
    clearAckedData := Table.clearOldAcked
    clear_queue := fun table row member => ((table.mem_clearOldAcked row).mp member).1
    clear_kept := fun table row member unacked =>
      (table.mem_clearOldAcked row).mpr ⟨member, fun both => unacked both.1⟩
    clear_lastId := fun _ => rfl }
  clear_acked := by
    intro table row member acked
    change row ∈ table.clearOldAcked.rows ↔ _
    rw [Table.mem_clearOldAcked]
    constructor
    · intro given inside
      exact given.2 ⟨acked, inside⟩
    · intro outside
      exact ⟨member, fun both => outside both.2⟩

end ScalarLM.Queue
