import Mathlib.Data.List.Nodup
import Mathlib.Tactic.Common

/-! The persistent queue below `InferenceWorkQueue`, by what its users rely on, and a
table that behaves so. -/

namespace ScalarLM.Queue

/-- The values of `persistqueue.AckStatus` that the program brings about. -/
inductive AckStatus where
  | ready
  | unack
  | acked
  deriving DecidableEq, Repr

structure Row (Item : Type) where
  id : Nat
  status : AckStatus
  data : Item

namespace Row

variable {Item : Type}

def marked (id : Nat) (status : AckStatus) (row : Row Item) : Row Item :=
  if row.id = id then { row with status := status } else row

def updated (id : Nat) (item : Item) (row : Row Item) : Row Item :=
  if row.id = id then { row with data := item } else row

def resumed (row : Row Item) : Row Item :=
  if row.status = .unack then { row with status := .ready } else row

@[simp] theorem marked_id (id : Nat) (status : AckStatus) (row : Row Item) :
    (row.marked id status).id = row.id := by
  unfold marked
  split <;> rfl

@[simp] theorem marked_data (id : Nat) (status : AckStatus) (row : Row Item) :
    (row.marked id status).data = row.data := by
  unfold marked
  split <;> rfl

@[simp] theorem updated_id (id : Nat) (item : Item) (row : Row Item) :
    (row.updated id item).id = row.id := by
  unfold updated
  split <;> rfl

@[simp] theorem resumed_id (row : Row Item) : row.resumed.id = row.id := by
  unfold resumed
  split <;> rfl

@[simp] theorem resumed_data (row : Row Item) : row.resumed.data = row.data := by
  unfold resumed
  split <;> rfl

theorem marked_same (id : Nat) (status : AckStatus) (row : Row Item) (hit : row.id = id) :
    (row.marked id status).status = status := by
  rw [marked, if_pos hit]

theorem marked_other (id : Nat) (status : AckStatus) (row : Row Item) (miss : row.id ≠ id) :
    row.marked id status = row :=
  if_neg miss

end Row

section Interface

variable {Store Item : Type}

def Edits (queue : Store → List (Row Item)) (lastId : Store → Nat) (edit : Row Item → Row Item)
    (before after : Store) : Prop :=
  (∀ row, row ∈ queue after ↔ ∃ old ∈ queue before, edit old = row) ∧
    lastId after = lastId before

end Interface

/-- `persistqueue.SQLiteAckQueue`. An operation that raises `Empty` returns nothing. -/
structure AckQueue (Store Item : Type) where
  empty : Store
  queue : Store → List (Row Item)
  /-- The highest id that was ever given out. -/
  lastId : Store → Nat
  put : Item → Store → Nat × Store
  get : Store → Option (Nat × Item) × Store
  getId : Nat → Store → Option Item × Store
  update : Nat → Item → Store → Store
  ack : Nat → Store → Store
  clearAckedData : Store → Store
  resumeUnackTasks : Store → Store
  queue_empty : queue empty = []
  unique : ∀ store, ∀ left ∈ queue store, ∀ right ∈ queue store, left.id = right.id → left = right
  put_id : ∀ item store, lastId store < (put item store).1
  put_lastId : ∀ item store, lastId (put item store).2 = (put item store).1
  put_queue : ∀ item store row, row ∈ queue (put item store).2 ↔
    row ∈ queue store ∨ row = ⟨(put item store).1, .ready, item⟩
  get_none : ∀ store, (get store).1 = none →
    (∀ row ∈ queue store, row.status ≠ .ready) ∧ (get store).2 = store
  get_some : ∀ store id item, (get store).1 = some (id, item) →
    ⟨id, .ready, item⟩ ∈ queue store ∧
      (∀ row ∈ queue store, row.status = .ready → id ≤ row.id) ∧
      Edits queue lastId (Row.marked id .unack) store (get store).2
  getId_none : ∀ id store, (getId id store).1 = none →
    (∀ row ∈ queue store, row.id ≠ id) ∧ (getId id store).2 = store
  getId_some : ∀ id store item, (getId id store).1 = some item →
    (∃ row ∈ queue store, row.id = id ∧ row.data = item) ∧
      Edits queue lastId (Row.marked id .unack) store (getId id store).2
  update_edits : ∀ id item store,
    Edits queue lastId (Row.updated id item) store (update id item store)
  ack_edits : ∀ id store, Edits queue lastId (Row.marked id .acked) store (ack id store)
  clear_queue : ∀ store, ∀ row ∈ queue (clearAckedData store), row ∈ queue store
  clear_kept : ∀ store, ∀ row ∈ queue store, row.status ≠ .acked →
    row ∈ queue (clearAckedData store)
  clear_lastId : ∀ store, lastId (clearAckedData store) = lastId store
  resume_edits : ∀ store, Edits queue lastId Row.resumed store (resumeUnackTasks store)

structure Table (Item : Type) where
  rows : List (Row Item)
  lastId : Nat
  sorted : rows.Pairwise fun left right => left.id < right.id
  bounded : ∀ row ∈ rows, row.id ≤ lastId

namespace Table

variable {Item : Type}

def empty : Table Item where
  rows := []
  lastId := 0
  sorted := List.Pairwise.nil
  bounded := List.forall_mem_nil _

def put (item : Item) (table : Table Item) : Nat × Table Item :=
  (table.lastId + 1, {
    rows := table.rows ++ [⟨table.lastId + 1, .ready, item⟩]
    lastId := table.lastId + 1
    sorted := by
      rw [List.pairwise_append]
      refine ⟨table.sorted, List.pairwise_singleton _ _, ?_⟩
      intro row member last single
      rw [List.mem_singleton.mp single]
      exact Nat.lt_succ_of_le (table.bounded row member)
    bounded := by
      intro row member
      rcases List.mem_append.mp member with old | new
      · exact Nat.le_succ_of_le (table.bounded row old)
      · cases List.mem_singleton.mp new
        exact Nat.le_refl _ })

def edit (change : Row Item → Row Item) (keeps : ∀ row, (change row).id = row.id)
    (table : Table Item) : Table Item where
  rows := table.rows.map change
  lastId := table.lastId
  sorted := by
    rw [List.pairwise_map]
    simpa only [keeps] using table.sorted
  bounded := by
    intro row member
    obtain ⟨old, before, rfl⟩ := List.mem_map.mp member
    rw [keeps]
    exact table.bounded old before

def get (table : Table Item) : Option (Nat × Item) × Table Item :=
  match table.rows.find? fun row => row.status = .ready with
  | some row => (some (row.id, row.data), table.edit (Row.marked row.id .unack) (Row.marked_id _ _))
  | none => (none, table)

def getId (id : Nat) (table : Table Item) : Option Item × Table Item :=
  match table.rows.find? fun row => row.id = id with
  | some row => (some row.data, table.edit (Row.marked id .unack) (Row.marked_id _ _))
  | none => (none, table)

def clearAckedData (table : Table Item) : Table Item where
  rows := table.rows.filter fun row => row.status ≠ .acked
  lastId := table.lastId
  sorted := table.sorted.sublist List.filter_sublist
  bounded := fun row member => table.bounded row (List.mem_filter.mp member).1

theorem edit_edits (change : Row Item → Row Item) (keeps : ∀ row, (change row).id = row.id)
    (table : Table Item) : Edits rows lastId change table (table.edit change keeps) :=
  ⟨fun _ => List.mem_map, rfl⟩

theorem get_spec (table : Table Item) (id : Nat) (item : Item)
    (found : table.get.1 = some (id, item)) :
    ⟨id, .ready, item⟩ ∈ table.rows ∧
      (∀ row ∈ table.rows, row.status = .ready → id ≤ row.id) ∧
      Edits rows lastId (Row.marked id .unack) table table.get.2 := by
  unfold get at found ⊢
  cases first : table.rows.find? fun row => row.status = .ready with
  | none => simp [first] at found
  | some row =>
      simp only [first, Option.some.injEq, Prod.mk.injEq] at found
      obtain ⟨rfl, rfl⟩ := found
      obtain ⟨hit, front, back, split, none⟩ := List.find?_eq_some_iff_append.mp first
      have ready : row.status = .ready := of_decide_eq_true hit
      refine ⟨?_, ?_, edit_edits _ (Row.marked_id _ _) table⟩
      · rw [← ready]
        exact List.mem_of_find?_eq_some first
      · intro other member waits
        have sorted := table.sorted
        rw [split] at member sorted
        rcases List.mem_append.mp member with before | after
        · exact absurd waits (by simpa using none other before)
        · rcases List.mem_cons.mp after with rfl | later
          · exact Nat.le_refl _
          · exact Nat.le_of_lt
              ((List.pairwise_cons.mp (List.pairwise_append.mp sorted).2.1).1 other later)

theorem unique (table : Table Item) (left : Row Item) (hl : left ∈ table.rows) (right : Row Item)
    (hr : right ∈ table.rows) (same : left.id = right.id) : left = right := by
  have distinct : (table.rows.map Row.id).Nodup :=
    (List.pairwise_map.mpr table.sorted).imp Nat.ne_of_lt
  exact List.inj_on_of_nodup_map distinct hl hr same

theorem getId_none (table : Table Item) (id : Nat) (missing : (table.getId id).1 = none) :
    (∀ row ∈ table.rows, row.id ≠ id) ∧ (table.getId id).2 = table := by
  unfold getId at missing ⊢
  cases first : table.rows.find? fun row => row.id = id with
  | some row => simp [first] at missing
  | none => exact ⟨by simpa using first, rfl⟩

theorem getId_some (table : Table Item) (id : Nat) (item : Item)
    (found : (table.getId id).1 = some item) :
    (∃ row ∈ table.rows, row.id = id ∧ row.data = item) ∧
      Edits rows lastId (Row.marked id .unack) table (table.getId id).2 := by
  unfold getId at found ⊢
  cases first : table.rows.find? fun row => row.id = id with
  | none => simp [first] at found
  | some row =>
      simp only [first, Option.some.injEq] at found
      refine ⟨⟨row, List.mem_of_find?_eq_some first, ?_, found⟩,
        edit_edits _ (Row.marked_id _ _) table⟩
      simpa using List.find?_some first

end Table

def tableQueue (Item : Type) : AckQueue (Table Item) Item where
  empty := .empty
  queue := Table.rows
  lastId := Table.lastId
  put := Table.put
  get := Table.get
  getId := Table.getId
  update := fun id item => Table.edit (Row.updated id item) (Row.updated_id id item)
  ack := fun id => Table.edit (Row.marked id .acked) (Row.marked_id id .acked)
  clearAckedData := Table.clearAckedData
  resumeUnackTasks := Table.edit Row.resumed Row.resumed_id
  queue_empty := rfl
  unique := fun table left hl right hr same => table.unique left hl right hr same
  put_id := fun _ table => Nat.lt_succ_self table.lastId
  put_lastId := fun _ _ => rfl
  put_queue := by
    intro item table row
    rw [Table.put, List.mem_append, List.mem_singleton]
  get_none := by
    intro table empty
    unfold Table.get at empty ⊢
    cases first : table.rows.find? fun row => row.status = .ready with
    | some row => simp [first] at empty
    | none => exact ⟨by simpa using first, rfl⟩
  get_some := fun table id item found => table.get_spec id item found
  getId_none := fun id table missing => table.getId_none id missing
  getId_some := fun id table item found => table.getId_some id item found
  update_edits := fun id item table => Table.edit_edits _ (Row.updated_id id item) table
  ack_edits := fun id table => Table.edit_edits _ (Row.marked_id id .acked) table
  clear_queue := fun _ _ member => (List.mem_filter.mp member).1
  clear_kept := fun _ _ member waits => List.mem_filter.mpr ⟨member, decide_eq_true waits⟩
  clear_lastId := fun _ => rfl
  resume_edits := fun table => Table.edit_edits _ Row.resumed_id table

end ScalarLM.Queue
