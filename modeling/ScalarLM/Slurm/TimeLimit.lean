import ScalarLM.Lib.Decimal

/-! The time limits of a training job: the one given to `sbatch`, the one of the partition and
the timeout inside the job. -/

namespace ScalarLM.Slurm

open Decimal

/-- The time settings of `cray-config.yaml`, filled in from `Config`. -/
structure TimeConfig where
  maxTrainTime : Int
  extraTrainingSeconds : Int

def TimeConfig.default : TimeConfig where
  maxTrainTime := 15 * 60
  extraTrainingSeconds := 300

/-- The key `timeout` of the training arguments. -/
inductive TimeoutArg where
  | absent
  | null
  | seconds (seconds : Int)

structure Timedelta where
  days : Int
  seconds : Nat
  withinDay : seconds < 86400

/-- `datetime.timedelta` has a limit to its days. -/
def Representable (seconds : Int) : Prop := (seconds / 86400).natAbs ≤ 999999999

instance (seconds : Int) : Decidable (Representable seconds) := inferInstanceAs (Decidable (_ ≤ _))

def timedelta (seconds : Int) : Option Timedelta :=
  if Representable seconds then
    some ⟨seconds / 86400, (seconds % 86400).toNat, by omega⟩
  else none

def Timedelta.totalSeconds (delta : Timedelta) : Int := delta.days * 86400 + delta.seconds

def formatTimedelta (delta : Timedelta) : List Char :=
  let hours := delta.seconds / 3600
  let remainingSeconds := delta.seconds % 3600
  let minutes := remainingSeconds / 60
  let seconds := remainingSeconds % 60
  writeInt delta.days ++ '-' :: (zeroPadded 2 hours ++ ':' :: (zeroPadded 2 minutes ++
    ':' :: zeroPadded 2 seconds))

/-- The time that a job of these arguments is to have for its training. -/
def trainTime (config : TimeConfig) : TimeoutArg → Int
  | .absent => config.maxTrainTime
  | .null => config.maxTrainTime
  | .seconds timeout => min timeout config.maxTrainTime

def getTrainTimeLimit (config : TimeConfig) (timeout : TimeoutArg) : Option (List Char) :=
  (timedelta (trainTime config timeout + config.extraTrainingSeconds)).map formatTimedelta

def parseTimeLimit (text : List Char) : Option Int :=
  match text.splitOn ':' with
  | [daysHours, minutes, seconds] => do
      let days ← readInt (rpartition '-' daysHours).1
      let hours ← readNat (rpartition '-' daysHours).2
      let minutes ← readNat minutes
      let seconds ← readNat seconds
      some (days * 86400 + hours * 3600 + minutes * 60 + seconds)
  | _ => none

def maxTrainingTime (config : TimeConfig) : Int :=
  (config.maxTrainTime + config.extraTrainingSeconds) / 60

structure PartitionConfig where
  partitionName : List Char
  nodes : List (List Char)
  maxTime : Int

def writePartitionConfig (config : TimeConfig) (name : List Char) (hostnames : List (List Char)) :
    PartitionConfig where
  partitionName := name
  nodes := hostnames
  maxTime := maxTrainingTime config

/-- `JobConfig.timeout`: its default when the key is absent; `None` is no integer. -/
def jobTimeout : TimeoutArg → Option Int
  | .absent => some (4 * 60 * 60)
  | .null => none
  | .seconds timeout => some timeout

section Encoding

theorem timedelta_totalSeconds (seconds : Int) (delta : Timedelta)
    (given : timedelta seconds = some delta) : delta.totalSeconds = seconds := by
  rw [timedelta] at given
  split at given
  · cases given
    simp only [Timedelta.totalSeconds]
    omega
  · cases given

theorem timedelta_isSome_iff (seconds : Int) :
    (timedelta seconds).isSome ↔ Representable seconds := by
  rw [timedelta]
  split
  · simpa
  · simpa

theorem parse_formatTimedelta (delta : Timedelta) :
    parseTimeLimit (formatTimedelta delta) = some delta.totalSeconds := by
  have uncut (number : Nat) : ':' ∉ zeroPadded 2 number :=
    not_mem_of_digits ':' (by decide) _ (isDigit_zeroPadded 2 number)
  have undashed (number : Nat) : '-' ∉ zeroPadded 2 number :=
    not_mem_of_digits '-' (by decide) _ (isDigit_zeroPadded 2 number)
  have joined : formatTimedelta delta = [':'].intercalate
      [writeInt delta.days ++ '-' :: zeroPadded 2 (delta.seconds / 3600),
        zeroPadded 2 (delta.seconds % 3600 / 60), zeroPadded 2 (delta.seconds % 3600 % 60)] := by
    simp [formatTimedelta, List.intercalate]
  have parts : (formatTimedelta delta).splitOn ':' =
      [writeInt delta.days ++ '-' :: zeroPadded 2 (delta.seconds / 3600),
        zeroPadded 2 (delta.seconds % 3600 / 60), zeroPadded 2 (delta.seconds % 3600 % 60)] := by
    rw [joined]
    refine List.splitOn_intercalate ':' ?_ (List.cons_ne_nil _ _)
    have days := not_mem_writeInt ':' (by decide) (by decide) delta.days
    simp [days, uncut]
  rw [parseTimeLimit, parts]
  dsimp only
  rw [rpartition_append '-' _ _ (undashed _)]
  simp only [readInt_writeInt, readNat_zeroPadded, Option.bind_eq_bind, Option.bind_some,
    Timedelta.totalSeconds, Option.some.injEq]
  omega

theorem parse_getTrainTimeLimit (config : TimeConfig) (timeout : TimeoutArg) (text : List Char)
    (given : getTrainTimeLimit config timeout = some text) :
    parseTimeLimit text = some (trainTime config timeout + config.extraTrainingSeconds) := by
  obtain ⟨delta, made, rfl⟩ := Option.map_eq_some_iff.mp given
  rw [parse_formatTimedelta, timedelta_totalSeconds _ delta made]

theorem getTrainTimeLimit_isSome_iff (config : TimeConfig) (timeout : TimeoutArg) :
    (getTrainTimeLimit config timeout).isSome ↔
      Representable (trainTime config timeout + config.extraTrainingSeconds) := by
  rw [getTrainTimeLimit, Option.isSome_map, timedelta_isSome_iff]

theorem forall_limit_iff (config : TimeConfig) (timeout : TimeoutArg) (property : Int → Prop) :
    (∀ text, getTrainTimeLimit config timeout = some text →
        ∃ limit, parseTimeLimit text = some limit ∧ property limit) ↔
      (Representable (trainTime config timeout + config.extraTrainingSeconds) →
        property (trainTime config timeout + config.extraTrainingSeconds)) := by
  constructor
  · intro limited representable
    obtain ⟨text, given⟩ := Option.isSome_iff_exists.mp
      ((getTrainTimeLimit_isSome_iff config timeout).mpr representable)
    obtain ⟨limit, parsed, holds⟩ := limited text given
    rw [parse_getTrainTimeLimit config timeout text given, Option.some.injEq] at parsed
    exact parsed ▸ holds
  · intro holds text given
    refine ⟨_, parse_getTrainTimeLimit config timeout text given, holds ?_⟩
    rw [← getTrainTimeLimit_isSome_iff, given]
    rfl

end Encoding

section Limits

variable (config : TimeConfig) (timeout : TimeoutArg)

/-- Training stops by itself before the extra seconds of the time limit begin. -/
def FitsLimit : Prop :=
  ∀ inProcess, jobTimeout timeout = some inProcess →
    ∀ text, getTrainTimeLimit config timeout = some text →
      ∃ limit, parseTimeLimit text = some limit ∧
        inProcess ≤ limit - config.extraTrainingSeconds

/-- The timeout in the job fits its Slurm limit exactly when it needs no cap. -/
theorem timeout_fits_limit_iff :
    FitsLimit config timeout ↔
      ∀ inProcess, jobTimeout timeout = some inProcess →
        Representable (trainTime config timeout + config.extraTrainingSeconds) →
          inProcess ≤ config.maxTrainTime := by
  refine forall_congr' fun inProcess => forall_congr' fun resolved => ?_
  rw [forall_limit_iff config timeout fun limit => inProcess ≤ limit - config.extraTrainingSeconds]
  refine forall_congr' fun _ => ?_
  cases timeout with
  | absent => rw [trainTime]; omega
  | null => cases resolved
  | seconds seconds =>
      cases resolved
      rw [trainTime]
      omega

/-- With the default configuration, a job without a timeout goes on for four hours. -/
theorem timeout_exceeds_limit :
    ¬ ∀ (config : TimeConfig) (timeout : TimeoutArg), 0 ≤ config.maxTrainTime →
      0 ≤ config.extraTrainingSeconds → FitsLimit config timeout := by
  intro claimed
  have fits := claimed .default .absent (by decide) (by decide) 14400 rfl
    ['0', '-', '0', '0', ':', '2', '0', ':', '0', '0'] (by decide)
  obtain ⟨limit, parsed, bound⟩ := fits
  have read : parseTimeLimit ['0', '-', '0', '0', ':', '2', '0', ':', '0', '0'] = some 1200 := by
    decide
  rw [read, Option.some.injEq] at parsed
  subst parsed
  exact absurd bound (by decide)

/-- The time limit of a job loses nothing of what is requested, and it is within that of the
partition. -/
def Admissible : Prop :=
  ∀ text, getTrainTimeLimit config timeout = some text →
    ∃ limit, parseTimeLimit text = some limit ∧
      limit = trainTime config timeout + config.extraTrainingSeconds ∧
      ∀ name hostnames, limit ≤ 60 * (writePartitionConfig config name hostnames).maxTime

/-- A job is admissible exactly when it asks for so much less than the maximum that the
seconds which the partition loses in its minutes do not matter. -/
theorem limit_admissible_iff :
    Admissible config timeout ↔
      (Representable (trainTime config timeout + config.extraTrainingSeconds) →
        trainTime config timeout +
          (config.maxTrainTime + config.extraTrainingSeconds) % 60 ≤ config.maxTrainTime) := by
  rw [Admissible, forall_limit_iff config timeout fun limit =>
    limit = trainTime config timeout + config.extraTrainingSeconds ∧
      ∀ name hostnames, limit ≤ 60 * (writePartitionConfig config name hostnames).maxTime]
  refine forall_congr' fun _ => ?_
  simp only [true_and, writePartitionConfig, maxTrainingTime, forall_const]
  omega

/-- One second more than a minute, and no job without a timeout may run. -/
theorem limit_not_admissible :
    ¬ ∀ (config : TimeConfig) (timeout : TimeoutArg), 0 ≤ config.maxTrainTime →
      0 ≤ config.extraTrainingSeconds →
      (∀ seconds, timeout = .seconds seconds → 0 ≤ seconds) → Admissible config timeout := by
  intro claimed
  have admissible := claimed ⟨901, 300⟩ .absent (by decide) (by decide)
    (fun _ same => by cases same) ['0', '-', '0', '0', ':', '2', '0', ':', '0', '1'] (by decide)
  obtain ⟨limit, _, rfl, bound⟩ := admissible
  exact absurd (bound [] []) (by decide)

end Limits

end ScalarLM.Slurm
