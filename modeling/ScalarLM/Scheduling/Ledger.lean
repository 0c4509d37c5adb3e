import ScalarLM.Scheduling.RunningQueue

/-! What a batch has taken up of its limits, and of the room for adapters. -/

namespace ScalarLM.Scheduling

open Engine

variable {V : Type} {config : SchedulerConfig} {budget : SchedulingBudget}
  {currLoras : Option (List Nat)} {members more : List (Request V)} {request : Request V}

section Fits

def seqsOf (requests : List (Request V)) : Nat :=
  (requests.map fun request => request.getMaxNumRunningSeqs).sum

def lorasOf (requests : List (Request V)) : List Nat :=
  ((requests.map Request.loraIntId).filter (0 < ·)).dedup

/-- The requests can run together. -/
structure Fits (config : SchedulerConfig) (requests : List (Request V)) : Prop where
  seqs : seqsOf requests ≤ config.maxNumSeqs
  loras : ∀ maxLoras, config.maxLoras = some maxLoras → (lorasOf requests).length ≤ maxLoras

theorem mem_lorasOf {lora : Nat} :
    lora ∈ lorasOf members ↔ 0 < lora ∧ ∃ request ∈ members, request.loraIntId = lora := by
  simp [lorasOf, and_comm]

theorem lorasOf_le {loras : List Nat} (listed : ∀ lora ∈ lorasOf members, lora ∈ loras) :
    (lorasOf members).length ≤ loras.length :=
  ((List.nodup_dedup _).subperm listed).length_le

theorem Fits.sublist (fits : Fits config more) (some : members.Sublist more) :
    Fits config members where
  seqs := (some.map _).sum_le_sum (fun _ _ => Nat.zero_le _) |>.trans fits.seqs
  loras maxLoras given := by
    refine (lorasOf_le fun lora listed => ?_).trans (fits.loras maxLoras given)
    obtain ⟨positive, request, member, same⟩ := mem_lorasOf.mp listed
    exact mem_lorasOf.mpr ⟨positive, request, some.subset member, same⟩

end Fits

section Ledger

structure Ledger (config : SchedulerConfig) (budget : SchedulingBudget)
    (currLoras : Option (List Nat)) (members : List (Request V)) : Prop where
  limits : budget.limits = (config.maxNumBatchedTokens, config.maxNumSeqs)
  seqs : budget.numCurrSeqs = seqsOf members
  listed : ∀ id ∈ budget.requestIdsNumCurrSeqs, id ∈ members.map Request.requestId
  numSeqs : budget.numCurrSeqs ≤ config.maxNumSeqs
  numTokens : budget.numBatchedTokens ≤ config.maxNumBatchedTokens
  lodged : ∀ maxLoras, config.maxLoras = some maxLoras → ∃ loras, currLoras = some loras ∧
    loras.length ≤ maxLoras ∧ ∀ lora ∈ lorasOf members, lora ∈ loras

namespace Ledger

theorem fits (ledger : Ledger config budget currLoras members) : Fits config members where
  seqs := by
    have few := ledger.numSeqs
    rw [ledger.seqs] at few
    exact Int.ofNat_le.mp few
  loras maxLoras given := by
    obtain ⟨loras, _, few, listed⟩ := ledger.lodged maxLoras given
    exact (lorasOf_le listed).trans few

theorem noRoomForLora_none (none : config.maxLoras = none) (lora : Nat) :
    noRoomForLora config currLoras lora = false := by
  unfold noRoomForLora
  rw [none]

theorem mem_useLora {loras : List Nat} {lora other : Nat} (listed : other ∈ loras) :
    other ∈ (if 0 < lora then addLora loras lora else loras) := by
  rw [addLora]
  split
  · split
    · exact listed
    · exact List.mem_cons_of_mem _ listed
  · exact listed

theorem take (ledger : Ledger config budget currLoras members) (changed : Request V)
    (fresh : request.requestId ∉ members.map Request.requestId) {tokens : Nat}
    (check : budget.canSchedule tokens request.getMaxNumRunningSeqs = .ok true)
    (room : noRoomForLora config currLoras request.loraIntId = false)
    (seqs : changed.getMaxNumRunningSeqs = request.getMaxNumRunningSeqs)
    (id : changed.requestId = request.requestId) (lora : changed.loraIntId = request.loraIntId) :
    Ledger config
      ((budget.addNumBatchedTokens request.requestId tokens).addNumSeqs request.requestId
        request.getMaxNumRunningSeqs)
      (useLora currLoras request.loraIntId) (members ++ [changed]) := by
  obtain ⟨kept, ids⟩ := addNumBatchedTokens_seqs budget request.requestId tokens
  have absent : request.requestId ∉
      (budget.addNumBatchedTokens request.requestId tokens).requestIdsNumCurrSeqs := by
    rw [ids]
    exact fun listed => fresh (ledger.listed _ listed)
  rw [SchedulingBudget.canSchedule] at check
  split at check
  · cases check
  have passed := of_decide_eq_true (Except.ok.inj check)
  have limits := Prod.mk.inj ledger.limits
  rw [limits.1, limits.2] at passed
  rw [SchedulingBudget.addNumSeqs, if_neg absent]
  refine ⟨?_, ?_, ?_, ?_, ?_, ?_⟩
  · exact (limits_addNumBatchedTokens _ _ _).trans ledger.limits
  · simp [ledger.seqs, seqsOf, seqs]
  · intro other listed
    rw [List.map_append, List.mem_append]
    rcases List.mem_cons.mp listed with rfl | earlier
    · exact .inr (List.mem_singleton.mpr id.symm)
    · rw [ids] at earlier
      exact .inl (ledger.listed other earlier)
  · simp only [kept]
    exact passed.2
  · exact (addNumBatchedTokens_le _ _ _).trans passed.1
  · intro maxLoras given
    obtain ⟨loras, some, few, listed⟩ := ledger.lodged maxLoras given
    unfold noRoomForLora at room
    rw [given, some] at room
    have room' := of_decide_eq_false room
    refine ⟨if 0 < request.loraIntId then addLora loras request.loraIntId else loras,
      by rw [some]; rfl, ?_, ?_⟩
    · rw [addLora]
      split
      · split
        · exact few
        · rename_i positive strange
          rw [List.length_cons]
          exact Nat.lt_of_not_le fun full => room' ⟨positive, strange, full⟩
      · exact few
    · intro other member
      obtain ⟨positive, holder, inside, same⟩ := mem_lorasOf.mp member
      rcases List.mem_append.mp inside with earlier | new
      · exact mem_useLora (listed other (mem_lorasOf.mpr ⟨positive, holder, earlier, same⟩))
      · rw [List.mem_singleton.mp new, lora] at same
        rw [← same, if_pos (same ▸ positive), addLora]
        split
        · rename_i present
          exact present
        · exact List.mem_cons_self

end Ledger

end Ledger

end ScalarLM.Scheduling
