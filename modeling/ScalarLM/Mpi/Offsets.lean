import ScalarLM.Mpi.Allgather

/-! The places in the buffers that `mpi_allgather` computes with the integers of the machine. -/

namespace ScalarLM.Mpi

open Blocks

section Machine

theorem toInt_mul_of_lt {left right : Int32} {a b : Nat} (first : left.toInt = a)
    (second : right.toInt = b) (small : a * b < 2 ^ 31) : (left * right).toInt = (a * b : Nat) := by
  rw [Int32.toInt_mul, first, second, ← Nat.cast_mul]
  apply Int.bmod_eq_of_le <;> omega

theorem toUInt64_of_toInt_eq {word : Int32} {n : Nat} (value : word.toInt = n) :
    word.toInt64.toUInt64.toNat = n := by
  have wide : word.toInt64.toInt = n := (Int32.toInt_toInt64 word).trans value
  have nonneg : 0 ≤ word.toInt64 := by
    rw [Int64.le_iff_toInt_le, wide]
    exact Int.natCast_nonneg n
  rw [Int64.toNat_toUInt64_of_le nonneg, Int64.toNatClampNeg, wide, Int.toNat_natCast]

theorem toInt_toInt32_ofNat {n : Nat} (small : n < 2 ^ 31) :
    (Int64.ofNat n).toInt32.toInt = n := by
  rw [Int64.toInt_toInt32, Int64.toInt_ofNat_of_lt (by omega)]
  apply Int.bmod_eq_of_le <;> omega

end Machine

section Accesses

def Datatype.size : Datatype → Nat
  | .float => 4
  | .double => 8
  | .int => 4
  | .longLong => 8
  | .unsignedChar => 1
  | .char => 1

/-- What a rank does with its buffers: it copies its data to a slice, sends them, and receives
others at a byte offset. -/
inductive Access where
  | copy (start stop : Int32)
  | isend (count : Int32) (datatype : Datatype) (destination : Int32)
  | irecv (offset : UInt64) (count : Int32) (datatype : Datatype) (source : Int32)
deriving DecidableEq

def otherRanks (worldSize rank : Int32) : List Int32 :=
  ((List.range worldSize.toNatClampNeg).map Int32.ofNat).filter fun i => i ≠ rank

/-- `i * count * typesize`, where the first product is one of `int`s. -/
def receiveOffset (i count : Int32) (typesize : UInt64) : UInt64 :=
  (i * count).toInt64.toUInt64 * typesize

/-- The accesses of `mpi_allgather` with what it throws, as long as no MPI call fails. -/
def accesses (worldSize rank : Int32) (numel : Int64) (scalarType : ScalarType) :
    List Access × Except String Unit :=
  let count := numel.toInt32
  let own := Access.copy (rank * count) ((rank + 1) * count)
  match getTypesize scalarType with
  | .error text => ([own], .error text)
  | .ok (datatype, typesize) =>
      let others := otherRanks worldSize rank
      ([own] ++ others.map (fun i => .isend count datatype i) ++
        others.map (fun i => .irecv (receiveOffset i count typesize) count datatype i), .ok ())

/-- What `MPI_Comm_size` and `numel` can return. -/
structure Sizes where
  worldSize : Nat
  numel : Nat
  positive : 0 < worldSize
  worldFits : worldSize < 2 ^ 31
  numelFits : numel < 2 ^ 63

/-- The place of an access is that of its rank, in integers, and data are received inside of the
buffer, which has room for the elements of all ranks. -/
def Access.Exact (sizes : Sizes) (rank : Nat) : Access → Prop
  | .copy start stop =>
      start.toInt = (rank * sizes.numel : Nat) ∧ stop.toInt = ((rank + 1) * sizes.numel : Nat)
  | .isend count _ _ => count.toInt = sizes.numel
  | .irecv offset count datatype source =>
      count.toInt = sizes.numel ∧
      offset.toNat = source.toNatClampNeg * sizes.numel * datatype.size ∧
      offset.toNat + sizes.numel * datatype.size ≤
        sizes.worldSize * sizes.numel * datatype.size

def OffsetsExact (sizes : Sizes) (scalarType : ScalarType) : Prop :=
  ∀ rank < sizes.worldSize, ∀ access ∈ (accesses (Int32.ofNat sizes.worldSize)
    (Int32.ofNat rank) (Int64.ofNat sizes.numel) scalarType).1, access.Exact sizes rank

end Accesses

section Exactness

theorem getTypesize_size {scalarType : ScalarType} {datatype : Datatype} {typesize : UInt64}
    (known : getTypesize scalarType = .ok (datatype, typesize)) :
    typesize.toNat = datatype.size ∧ datatype.size ≤ 8 := by
  cases scalarType <;> cases known <;> decide

theorem mem_otherRanks {worldSize rank : Nat} (fits : worldSize < 2 ^ 31)
    (inside : rank < worldSize) {i : Int32} :
    i ∈ otherRanks (Int32.ofNat worldSize) (Int32.ofNat rank) ↔
      ∃ source < worldSize, source ≠ rank ∧ i = Int32.ofNat source := by
  rw [otherRanks, Int32.toNatClampNeg_ofNat_of_lt fits, List.mem_filter, List.mem_map,
    decide_eq_true_eq]
  constructor
  · intro member
    obtain ⟨⟨source, listed, rfl⟩, other⟩ := member
    exact ⟨source, List.mem_range.mp listed, fun same => other (congrArg _ same), rfl⟩
  · intro given
    obtain ⟨source, listed, other, rfl⟩ := given
    refine ⟨⟨source, List.mem_range.mpr listed, rfl⟩, fun same => other ?_⟩
    rw [← Int32.toNatClampNeg_ofNat_of_lt (listed.trans fits), same,
      Int32.toNatClampNeg_ofNat_of_lt (inside.trans fits)]

/-- The byte offset of a receive is exact when the elements before it can be counted. -/
theorem receiveOffset_toNat {source numel : Nat} {i count : Int32} {typesize : UInt64}
    (index : i.toInt = source) (elements : count.toInt = numel)
    (small : source * numel < 2 ^ 31) (narrow : typesize.toNat ≤ 8) :
    (receiveOffset i count typesize).toNat = source * numel * typesize.toNat := by
  rw [receiveOffset, UInt64.toNat_mul,
    toUInt64_of_toInt_eq (toInt_mul_of_lt index elements small)]
  apply Nat.mod_eq_of_lt
  calc
    source * numel * typesize.toNat ≤ source * numel * 8 := Nat.mul_le_mul_left _ narrow
    _ < 2 ^ 64 := by omega

theorem mem_accesses {worldSize rank : Int32} {numel : Int64} {scalarType : ScalarType}
    {access : Access} (member : access ∈ (accesses worldSize rank numel scalarType).1) :
    access = .copy (rank * numel.toInt32) ((rank + 1) * numel.toInt32) ∨
    ∃ datatype typesize, getTypesize scalarType = .ok (datatype, typesize) ∧
      ∃ i ∈ otherRanks worldSize rank, access = .isend numel.toInt32 datatype i ∨
        access = .irecv (receiveOffset i numel.toInt32 typesize) numel.toInt32 datatype i := by
  unfold accesses at member
  dsimp only at member
  split at member
  · exact Or.inl (List.mem_singleton.mp member)
  · rename_i datatype typesize known
    rcases List.mem_append.mp member with front | received
    · rcases List.mem_append.mp front with own | sent
      · exact Or.inl (List.mem_singleton.mp own)
      · obtain ⟨i, other, rfl⟩ := List.mem_map.mp sent
        exact Or.inr ⟨datatype, typesize, known, i, other, Or.inl rfl⟩
    · obtain ⟨i, other, rfl⟩ := List.mem_map.mp received
      exact Or.inr ⟨datatype, typesize, known, i, other, Or.inr rfl⟩

theorem copy_mem_accesses (worldSize rank : Int32) (numel : Int64) (scalarType : ScalarType) :
    .copy (rank * numel.toInt32) ((rank + 1) * numel.toInt32) ∈
      (accesses worldSize rank numel scalarType).1 := by
  unfold accesses
  dsimp only
  split <;> exact List.mem_cons_self

namespace Sizes

variable {sizes : Sizes}

theorem slot_lt (small : sizes.worldSize * sizes.numel < 2 ^ 31) {index : Nat}
    (inside : index ≤ sizes.worldSize) : index * sizes.numel < 2 ^ 31 :=
  (Nat.mul_le_mul_right _ inside).trans_lt small

theorem toInt_count (small : sizes.worldSize * sizes.numel < 2 ^ 31) :
    (Int64.ofNat sizes.numel).toInt32.toInt = sizes.numel := by
  have one := slot_lt small sizes.positive
  rw [Nat.succ_mul, Nat.zero_mul, Nat.zero_add] at one
  exact toInt_toInt32_ofNat one

theorem toInt_rank {index : Nat} (inside : index < sizes.worldSize) :
    (Int32.ofNat index).toInt = index :=
  Int32.toInt_ofNat_of_lt (inside.trans sizes.worldFits)

theorem toInt_next {index : Nat} (inside : index < sizes.worldSize) :
    (Int32.ofNat index + 1).toInt = (index + 1 : Nat) := by
  have next : (Int32.ofNat (index + 1)).toInt = (index + 1 : Nat) :=
    Int32.toInt_ofNat_of_lt (Nat.lt_of_le_of_lt inside sizes.worldFits)
  rw [Int32.ofNat_add] at next
  exact next

theorem toInt_start (small : sizes.worldSize * sizes.numel < 2 ^ 31) {rank : Nat}
    (inside : rank < sizes.worldSize) :
    (Int32.ofNat rank * (Int64.ofNat sizes.numel).toInt32).toInt = (rank * sizes.numel : Nat) :=
  toInt_mul_of_lt (toInt_rank inside) (toInt_count small) (slot_lt small inside.le)

theorem receiveOffset_eq (small : sizes.worldSize * sizes.numel < 2 ^ 31)
    {scalarType : ScalarType} {datatype : Datatype} {typesize : UInt64}
    (known : getTypesize scalarType = .ok (datatype, typesize)) {source : Nat}
    (inside : source < sizes.worldSize) :
    (receiveOffset (Int32.ofNat source) (Int64.ofNat sizes.numel).toInt32 typesize).toNat =
      source * sizes.numel * datatype.size := by
  obtain ⟨bytes, narrow⟩ := getTypesize_size known
  rw [← bytes] at narrow ⊢
  exact receiveOffset_toNat (toInt_rank inside) (toInt_count small) (slot_lt small inside.le) narrow

end Sizes

theorem offsets_exact_of_lt (sizes : Sizes) (scalarType : ScalarType)
    (small : sizes.worldSize * sizes.numel < 2 ^ 31) : OffsetsExact sizes scalarType := by
  intro rank inside access member
  have count := Sizes.toInt_count small
  rcases mem_accesses member with rfl | ⟨datatype, typesize, known, i, other, sent | received⟩
  · exact ⟨Sizes.toInt_start small inside,
      toInt_mul_of_lt (Sizes.toInt_next inside) count (Sizes.slot_lt small inside)⟩
  · subst sent
    exact count
  · subst received
    obtain ⟨source, listed, _, rfl⟩ := (mem_otherRanks sizes.worldFits inside).mp other
    have offset := Sizes.receiveOffset_eq small known listed
    refine ⟨count, ?_, ?_⟩
    · rw [offset, Int32.toNatClampNeg, Sizes.toInt_rank listed, Int.toNat_natCast]
    · rw [offset, ← Nat.add_mul, ← Nat.succ_mul]
      exact Nat.mul_le_mul_right _ (Nat.mul_le_mul_right _ listed)

/-- All places are exact as long as the elements of all ranks can be counted with an `int`. -/
theorem offsets_exact_iff (sizes : Sizes) (scalarType : ScalarType) :
    OffsetsExact sizes scalarType ↔ sizes.worldSize * sizes.numel < 2 ^ 31 := by
  refine ⟨fun exact => ?_, offsets_exact_of_lt sizes scalarType⟩
  -- The slice of the last rank ends where the buffer does.
  have last : sizes.worldSize - 1 + 1 = sizes.worldSize := Nat.sub_add_cancel sizes.positive
  have stop := (exact (sizes.worldSize - 1) (by omega) _ (copy_mem_accesses _ _ _ scalarType)).2
  rw [last] at stop
  have fits := Int32.toInt_lt ((Int32.ofNat (sizes.worldSize - 1) + 1) *
    (Int64.ofNat sizes.numel).toInt32)
  omega

/-- Rank 0 receives the data of rank 2 in front of its buffer. -/
theorem received_before_buffer :
    ¬ OffsetsExact ⟨3, 2 ^ 30, by decide, by decide, by decide⟩ .float32 := by
  intro exact
  have received := exact 0 (by decide)
    (.irecv (UInt64.ofNat (2 ^ 64 - 2 ^ 33)) (Int32.ofNat (2 ^ 30)) .float 2) (by decide)
  exact absurd received.2.1 (by decide)

end Exactness

end ScalarLM.Mpi
