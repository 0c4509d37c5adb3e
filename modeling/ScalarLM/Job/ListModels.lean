import ScalarLM.Lib.Dict
import ScalarLM.Lib.Json
import ScalarLM.Lib.Utf8
import ScalarLM.Slurm.Squeue

/-! What `list_models` and `get_latest_model` make of the `status.json` files that they read. -/

namespace ScalarLM.Listings

open Json Utf8

abbrev JobName := List Char

abbrev Bytes := List UInt8

/-- The operations of Python on numbers and on lists of them. A float is given by its text. -/
structure PythonNumbers where
  less : Value → Value → Bool
  lessLists : List Value → List Value → Option Bool
  floatPlusOne : List Char → List Char
  floatRepr : List Char → List Char

inductive ListingError where
  | noTrainingJobs
  | fileNotFound
  | isADirectory
  | unicodeDecode
  | jsonDecode
  | typeError
  | attributeError
  | keyError
  deriving DecidableEq

inductive StatusRead where
  | missing
  | unopenable
  | content (bytes : Bytes)

section Values

def codePoints (text : List Char) : List Nat := text.map Char.toNat

def historyKey : List Char := ['h', 'i', 's', 't', 'o', 'r', 'y']

def startTimeKey : List Char := ['s', 't', 'a', 'r', 't', '_', 't', 'i', 'm', 'e']

def statusKey : List Char := ['s', 't', 'a', 't', 'u', 's']

def stepKey : List Char := ['s', 't', 'e', 'p']

def timeKey : List Char := ['t', 'i', 'm', 'e']

def maxStepsKey : List Char := ['m', 'a', 'x', '_', 's', 't', 'e', 'p', 's']

def unknownStatus : Value := .string (codePoints ['U', 'N', 'K', 'N', 'O', 'W', 'N'])

def IsNumber : Value → Prop
  | .int _ => True
  | .float _ => True
  | .bool _ => True
  | _ => False

instance decidableIsNumber : ∀ value, Decidable (IsNumber value)
  | .int _ => isTrue trivial
  | .float _ => isTrue trivial
  | .bool _ => isTrue trivial
  | .null => isFalse id
  | .string _ => isFalse id
  | .array _ => isFalse id
  | .object _ => isFalse id

def member? (members : List (List Nat × Value)) (key : List Char) : Option Value :=
  (members.find? fun member => member.1 = codePoints key).map Prod.snd

def contains (value : Value) (key : List Char) : Except ListingError Bool :=
  match value with
  | .object members => .ok (members.any fun member => member.1 = codePoints key)
  | .array elements => .ok (elements.any fun element =>
      match element with
      | .string text => text = codePoints key
      | _ => false)
  | .string text => .ok (text.tails.any fun tail => (codePoints key).isPrefixOf tail)
  | _ => .error .typeError

def get (value : Value) (key : List Char) (default : Value) : Except ListingError Value :=
  match value with
  | .object members => .ok ((member? members key).getD default)
  | _ => .error .attributeError

/-- `value[-1]` when `len(value)` is not zero. The keys of an object are strings. -/
def lastOf : Value → Except ListingError (Option Value)
  | .array elements => .ok elements.getLast?
  | .string text => .ok (text.getLast?.map fun point => .string [point])
  | .object [] => .ok none
  | .object (_ :: _) => .error .keyError
  | _ => .error .typeError

variable (python : PythonNumbers)

/-- `left < right`; none is a `TypeError`. -/
def lessThan (left right : Value) : Option Bool :=
  match left, right with
  | .string first, .string second => some (decide (first < second))
  | .array first, .array second => python.lessLists first second
  | left, right => if IsNumber left ∧ IsNumber right then some (python.less left right) else none

def plusOne : Value → Except ListingError Value
  | .int number => .ok (.int (number + 1))
  | .bool value => .ok (.int (if value then 2 else 1))
  | .float text => .ok (.float (python.floatPlusOne text))
  | _ => .error .typeError

end Values

section Reading

def jsonLoad (bytes : Bytes) : Except ListingError Value :=
  match decodeUtf8 bytes with
  | none => .error .unicodeDecode
  | some text =>
      match loads text with
      | none => .error .jsonDecode
      | some value => .ok value

def getStartTime : StatusRead → Except ListingError Value
  | .missing => .error .fileNotFound
  | .unopenable => .error .isADirectory
  | .content bytes => do
      let status ← jsonLoad bytes
      if ← contains status historyKey then get status startTimeKey (.int 0)
      else return .int 0

def firstLine (text : List Char) : List Char :=
  text.takeWhile fun char => char ≠ '\n' && char ≠ '\r'

/-- `get_training_job_status`: the first line only, and none of it when that is no JSON. -/
def getTrainingJobStatus : StatusRead → Except ListingError (Option Value)
  | .missing => .ok none
  | .unopenable => .error .isADirectory
  | .content bytes =>
      match decodeUtf8 bytes with
      | none => .error .unicodeDecode
      | some text => .ok (loads (Words.strip Slurm.isSpace (firstLine text)))

structure ModelRow where
  name : JobName
  deployed : Bool
  status : Value
  startTime : Value
  step : Value
  maxSteps : Value
  trainTime : Value

variable (python : PythonNumbers)

def getCurrentStep (status : Value) : Except ListingError Value := do
  let history ← get status historyKey (.array [])
  match ← lastOf history with
  | none => return .int 0
  | some last =>
      let lastStep ← get last stepKey (.int 0)
      plusOne python lastStep

def getTrainTime (status : Value) : Except ListingError Value := do
  let history ← get status historyKey (.array [])
  match ← lastOf history with
  | none => return .int 0
  | some last => get last timeKey (.int 0)

/-- What `list_models` appends for one model. `null` is loaded as `None`, as if no status. -/
def modelRow (registeredModels : List JobName) (name : JobName) (jobStatus : Option Value) :
    Except ListingError ModelRow := do
  let status := match jobStatus with
    | none => .object []
    | some .null => .object []
    | some value => value
  let shown ← get status statusKey unknownStatus
  let startTime ← get status startTimeKey (.int 0)
  let step ← getCurrentStep python status
  let maxSteps ← get status maxStepsKey (.int 0)
  let trainTime ← getTrainTime status
  return ⟨name, name ∈ registeredModels, shown, startTime, step, maxSteps, trainTime⟩

def insertByKey (entry : JobName × Value) :
    List (JobName × Value) → Option (List (JobName × Value))
  | [] => some [entry]
  | head :: rest => do
      if ← lessThan python head.2 entry.2 then return entry :: head :: rest
      else return head :: (← insertByKey entry rest)

def sortByKey (keyed : List (JobName × Value)) : Option (List (JobName × Value)) :=
  keyed.foldlM (fun sorted entry => insertByKey python entry sorted) []

end Reading

section Stages

inductive ListingTask where
  | listModels (registeredModels : List JobName)
  | getLatestModel

/-- A listing between its reads. The keys are all computed before the sort begins. -/
inductive Listing where
  | startTimes (task : ListingTask) (waiting : List JobName) (keyed : List (JobName × Value))
  | rows (registeredModels : List JobName) (waiting : List JobName) (models : List ModelRow)
  | listed (models : List ModelRow)
  | latest (name : JobName)
  | raised (task : ListingTask) (error : ListingError)

def Listing.begin (task : ListingTask) (listdir : Option (List JobName)) : Listing :=
  match task, listdir with
  | .listModels _, none => .listed []
  | .getLatestModel, none => .raised .getLatestModel .noTrainingJobs
  | .getLatestModel, some [] => .raised .getLatestModel .noTrainingJobs
  | task, some names => .startTimes task names []

variable (python : PythonNumbers)

def Listing.sorted (task : ListingTask) (sorted : List (JobName × Value)) : Listing :=
  match task, sorted with
  | .listModels registeredModels, sorted => .rows registeredModels (sorted.map Prod.fst) []
  | .getLatestModel, [] => .raised .getLatestModel .noTrainingJobs
  | .getLatestModel, first :: _ => .latest first.1

def Listing.proceed (read : JobName → StatusRead) : Listing → Listing
  | .startTimes task (name :: waiting) keyed =>
      match getStartTime (read name) with
      | .error error => .raised task error
      | .ok startTime => .startTimes task waiting (keyed ++ [(name, startTime)])
  | .startTimes task [] keyed =>
      match sortByKey python keyed with
      | none => .raised task .typeError
      | some sorted => .sorted task sorted
  | .rows registeredModels (name :: waiting) models =>
      match getTrainingJobStatus (read name) >>= modelRow python registeredModels name with
      | .error error => .raised (.listModels registeredModels) error
      | .ok model => .rows registeredModels waiting (models ++ [model])
  | .rows _ [] models => .listed models
  | ended => ended

end Stages

end ScalarLM.Listings
