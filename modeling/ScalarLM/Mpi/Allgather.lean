import Mathlib.Logic.Function.Basic
import ScalarLM.Lib.Overwrite
import ScalarLM.Lib.Transition
import ScalarLM.Training.Collectives

/-! `mpi_allgather` on all ranks: each one sends its buffer to the others and receives
theirs one after the other. -/

namespace ScalarLM.Mpi

open Blocks

/-- `torch::ScalarType`, as far as `get_typesize` knows it. -/
inductive ScalarType where
  | float32
  | float64
  | int32
  | int64
  | uint8
  | int8
  | other

inductive Datatype where
  | float
  | double
  | int
  | longLong
  | unsignedChar
  | char
deriving DecidableEq

def getTypesize : ScalarType → Except String (Datatype × UInt64)
  | .float32 => .ok (.float, 4)
  | .float64 => .ok (.double, 8)
  | .int32 => .ok (.int, 4)
  | .int64 => .ok (.longLong, 8)
  | .uint8 => .ok (.unsignedChar, 1)
  | .int8 => .ok (.char, 1)
  | .other => .error "Unsupported torch::ScalarType for MPI communication"

/-- The calls that all ranks make: as many, in the same order, and each with as many
elements on one rank as on any other, in flat and contiguous buffers of one type. -/
structure Calls (α : Type) where
  worldSize : Nat
  calls : Nat
  /-- A rank finds its GPU, and what is queued on it ends without an error. -/
  cuda : Nat → Nat → Bool
  scalarType : Nat → ScalarType
  count : Nat → Nat
  sendbuf : Nat → Nat → List α
  recvbuf : Nat → Nat → List α
  sent : ∀ rank call, (sendbuf rank call).length = count call
  room : ∀ rank call, (recvbuf rank call).length = worldSize * count call

/-- Where a process is: outside of a call, in the loop that posts the sends, before or in
the receive from a rank, or at `MPI_Waitall`. -/
inductive Phase where
  | outside
  | sending (rank : Nat)
  | posting (rank : Nat)
  | waiting (rank : Nat)
  | waitall
  | raised

/-- A message; the number of its call is not part of what is sent. -/
structure Message (α : Type) where
  call : Nat
  data : List α

structure Process (α : Type) where
  call : Nat
  phase : Phase
  recvbuf : List α
  returned : List (List α)

/-- The processes, the messages under way between each two of them, in the order in which
they were sent, and how many have been received. -/
structure Mesh (α : Type) where
  processes : Nat → Process α
  channels : Nat → Nat → List (Message α)
  received : Nat → Nat → Nat

/-- A rank goes on. At `MPI_Waitall` the library may have completed some of the sends
before their messages are received. -/
structure Event where
  rank : Nat
  buffered : Nat → Bool

section Steps

variable {α : Type} (calls : Calls α)

def start : Mesh α where
  processes := fun _ => ⟨0, .outside, [], []⟩
  channels := fun _ _ => []
  received := fun _ _ => 0

variable (mesh : Mesh α) (rank : Nat)

def Mesh.setProcess (process : Process α) : Mesh α :=
  { mesh with processes := Function.update mesh.processes rank process }

def Mesh.goTo (phase : Phase) : Mesh α :=
  mesh.setProcess rank { mesh.processes rank with phase := phase }

def Calls.numel (call : Nat) : Nat := (calls.sendbuf rank call).length

def Calls.copied (rank call : Nat) : List α :=
  overwrite (calls.recvbuf rank call) (rank * calls.numel rank call) (calls.sendbuf rank call)

/-- The entry of a call. `torch::cuda::synchronize` raises without a GPU, whatever device the
buffers are on, and `get_typesize` raises for a type that it does not know. -/
def enter : Mesh α :=
  let process := mesh.processes rank
  if process.call < calls.calls then
    if calls.cuda rank process.call then
      match getTypesize (calls.scalarType process.call) with
      | .ok _ =>
          mesh.setProcess rank { process with
            recvbuf := calls.copied rank process.call
            phase := .sending 0 }
      | .error _ =>
          mesh.setProcess rank { process with
            recvbuf := calls.copied rank process.call
            phase := .raised }
    else mesh.goTo rank .raised
  else mesh

def send (destination : Nat) : Mesh α :=
  if destination < calls.worldSize then
    if destination = rank then mesh.goTo rank (.sending (destination + 1))
    else
      let call := (mesh.processes rank).call
      { mesh.goTo rank (.sending (destination + 1)) with
        channels := Function.update mesh.channels rank
          (Function.update (mesh.channels rank) destination
            (mesh.channels rank destination ++ [⟨call, calls.sendbuf rank call⟩])) }
  else mesh.goTo rank (.posting 0)

def post (source : Nat) : Mesh α :=
  if source < calls.worldSize then
    if source = rank then mesh.goTo rank (.posting (source + 1))
    else mesh.goTo rank (.waiting source)
  else mesh.goTo rank .waitall

def Process.takes {α : Type} (process : Process α) (source count : Nat) (data : List α) :
    Process α :=
  { process with
    recvbuf := overwrite process.recvbuf (source * count) data
    phase := .posting (source + 1) }

/-- `MPI_Wait` with the check of the number of elements; the oldest message from the
source is the one received. -/
def receive (source : Nat) : Mesh α :=
  match mesh.channels source rank with
  | [] => mesh
  | message :: rest =>
      let process := mesh.processes rank
      let count := calls.numel rank process.call
      if message.data.length = count then
        { mesh.setProcess rank (process.takes source count message.data) with
          channels := Function.update mesh.channels source
            (Function.update (mesh.channels source) rank rest)
          received := Function.update mesh.received source
            (Function.update (mesh.received source) rank (mesh.received source rank + 1)) }
      else mesh.goTo rank .raised

/-- The message of the current call to a rank is received or was buffered. -/
def SendComplete (buffered : Nat → Bool) (destination : Nat) : Prop :=
  buffered destination = true ∨ (mesh.processes rank).call < mesh.received rank destination

def SendsComplete (buffered : Nat → Bool) : Prop :=
  ∀ destination < calls.worldSize, destination ≠ rank →
    SendComplete mesh rank buffered destination

instance (buffered : Nat → Bool) : Decidable (SendsComplete calls mesh rank buffered) :=
  inferInstanceAs (Decidable (∀ destination < _, destination ≠ rank → _ ∨ _))

def finish (buffered : Nat → Bool) : Mesh α :=
  let process := mesh.processes rank
  if SendsComplete calls mesh rank buffered then
    mesh.setProcess rank { process with
      call := process.call + 1
      phase := .outside
      returned := process.returned ++ [process.recvbuf] }
  else mesh

def step (mesh : Mesh α) (event : Event) : Mesh α :=
  match (mesh.processes event.rank).phase with
  | .outside => enter calls mesh event.rank
  | .sending destination => send calls mesh event.rank destination
  | .posting source => post calls mesh event.rank source
  | .waiting source => receive calls mesh event.rank source
  | .waitall => finish calls mesh event.rank event.buffered
  | .raised => mesh

def Goes (mesh : Mesh α) (rank : Nat) (buffered : Nat → Bool) : Phase → Prop
  | .outside => (mesh.processes rank).call < calls.calls
  | .sending _ => True
  | .posting _ => True
  | .waiting source => (mesh.channels source rank).isEmpty = false
  | .waitall => SendsComplete calls mesh rank buffered
  | .raised => False

instance (mesh : Mesh α) (rank : Nat) (buffered : Nat → Bool) :
    (phase : Phase) → Decidable (Goes calls mesh rank buffered phase)
  | .outside => inferInstanceAs (Decidable (_ < _))
  | .sending _ => isTrue trivial
  | .posting _ => isTrue trivial
  | .waiting _ => inferInstanceAs (Decidable (_ = _))
  | .waitall => inferInstanceAs (Decidable (SendsComplete _ _ _ _))
  | .raised => isFalse id

/-- An event of one of the ranks that can go on. -/
def Enabled (mesh : Mesh α) (event : Event) : Prop :=
  event.rank < calls.worldSize ∧
    Goes calls mesh event.rank event.buffered (mesh.processes event.rank).phase

instance (mesh : Mesh α) (event : Event) : Decidable (Enabled calls mesh event) :=
  inferInstanceAs (Decidable (_ ∧ _))

def gathered (call : Nat) : List α :=
  Training.allgather calls.worldSize fun rank => calls.sendbuf rank call

end Steps

end ScalarLM.Mpi
