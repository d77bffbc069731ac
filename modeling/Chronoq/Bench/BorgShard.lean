import Chronoq.Foundations.LastWrite
import Chronoq.Foundations.Fallible
import Chronoq.Ranker.Values

/-! # `traces/borg.py`: parsing a shard of task events

The first loop reads the lines into six dictionaries, one assignment after another inside a `try` whose
handler passes; the second makes a record of every key with a FINISH time that is later than its SUBMIT
time. `parseLine` runs in a monad whose exceptions keep the assignments made before them.

`readLine_eq` says what one line does to the dictionaries. A SUBMIT line that raises has assigned the
timestamp, and with it every field before the one that does not convert. -/

namespace Chronoq.Bench
open Foundations

set_option autoImplicit false

/-- A `str`, by its characters. -/
abbrev Text := List Char

/-- `c.isspace()` -/
def isSpace (c : Char) : Bool :=
  c.toNat ∈ [0x09, 0x0a, 0x0b, 0x0c, 0x0d, 0x1c, 0x1d, 0x1e, 0x1f, 0x20, 0x85, 0xa0, 0x1680, 0x2000,
    0x2001, 0x2002, 0x2003, 0x2004, 0x2005, 0x2006, 0x2007, 0x2008, 0x2009, 0x200a, 0x2028, 0x2029,
    0x202f, 0x205f, 0x3000]

/-- `line.strip()` -/
def stripLine (line : Text) : Text :=
  ((line.dropWhile isSpace).reverse.dropWhile isSpace).reverse

/-- `int(text)` and `float(text)`, where `none` is a `ValueError`, and the float `0.0`. -/
structure Conversions (F : Type) where
  int : Text → Option ℤ
  float : Text → Option F
  zero : F

/-- `int(text)` for a decimal number in ASCII digits -/
def intOfText (text : Text) : Option ℤ :=
  let (negative, rest) := signed (stripLine text)
  match digitPart rest with
  | (digit :: digits, []) =>
    let n : ℤ := Nat.ofDigits 10 (digit :: digits).reverse
    some (if negative then -n else n)
  | _ => none

/-- The conversions of decimal numbers. -/
def decimals : Conversions ExtFloat :=
  ⟨intOfText, fun text => floatOfText (String.ofList text), .finite 0⟩

/-- `(job_id, task_idx)` -/
abbrev TaskKey := Text × Text

/-- The dictionaries of `_parse_shard`. The second loop takes the items of `finishes` in their order. -/
structure ShardState (F : Type) where
  submits : Dict TaskKey ℤ := ∅
  finishes : List (TaskKey × ℤ) := []
  schedClasses : Dict TaskKey ℤ := ∅
  prioritiesMap : Dict TaskKey ℤ := ∅
  cpuRequests : Dict TaskKey F := ∅
  memRequests : Dict TaskKey F := ∅

/-- Statements that assign to the dictionaries and may raise in between. -/
abbrev Parse (F : Type) := ExceptT PyException (StateM (ShardState F))

section Lines
variable {F : Type}

def converted {α : Type} (value : Option α) : Parse F α :=
  value.elim (throw (.raised "ValueError")) pure

/-- `convert(parts[i]) if len(parts) > i and parts[i] else default` -/
def fieldOr {α : Type} (convert : Text → Option α) (default : α) (parts : List Text) (i : ℕ) :
    Option α :=
  if parts.getD i [] = [] then some default else convert (parts.getD i [])

/-- The body of the `try`, on a line of six parts or more. -/
def parseLine (C : Conversions F) (parts : List Text) : Parse F Unit := do
  let ts ← converted (C.int (parts.getD 0 []))
  let key : TaskKey := (parts.getD 2 [], parts.getD 3 [])
  let eventType ← converted (fieldOr C.int (-1) parts 5)
  if eventType = 0 then
    modify fun s => { s with submits := s.submits.insert key ts }
    let schedClass ← converted (fieldOr C.int 0 parts 7)
    modify fun s => { s with schedClasses := s.schedClasses.insert key schedClass }
    let priority ← converted (fieldOr C.int 0 parts 8)
    modify fun s => { s with prioritiesMap := s.prioritiesMap.insert key priority }
    let cpuRequest ← converted (fieldOr C.float C.zero parts 9)
    modify fun s => { s with cpuRequests := s.cpuRequests.insert key cpuRequest }
    let memRequest ← converted (fieldOr C.float C.zero parts 10)
    modify fun s => { s with memRequests := s.memRequests.insert key memRequest }
  else if eventType = 4 then
    modify fun s => { s with finishes := setItem key ts s.finishes }

/-- `line.strip().split(",")` -/
def partsOf (line : Text) : List Text := (stripLine line).splitOn ','

/-- One pass of the loop over the lines. -/
def readLine (C : Conversions F) (s : ShardState F) (line : Text) : ShardState F :=
  if (partsOf line).length < 6 then s else ((parseLine C (partsOf line)).run s).2

def readLines (C : Conversions F) (lines : List Text) : ShardState F := lines.foldl (readLine C) {}

/-- Parsing the line raises, and the handler passes. -/
def lineRaises (C : Conversions F) (s : ShardState F) (line : Text) : Bool :=
  if (partsOf line).length < 6 then false
  else ((parseLine C (partsOf line)).run s).1 matches .error _

end Lines

/-! ## Records -/

/-- One row of the table, which keeps integers of any size. -/
structure BorgRow (F : Type) where
  jobId : Text
  taskIndex : ℤ
  submitTimeUs : ℤ
  finishTimeUs : ℤ
  durationMs : ℚ
  schedulingClass : ℤ
  priority : ℤ
  cpuRequest : F
  memoryRequest : F
  deriving DecidableEq, Repr

/-- The least integer too large to become a float. -/
def floatLimit : ℤ := ((2 ^ 1024 - 2 ^ 970 : ℕ) : ℤ)

/-- `dur_us / 1000.0` for a positive duration -/
def millis (durUs : ℤ) : Except PyException ℚ :=
  if durUs < floatLimit then .ok (durUs / 1000) else .error (.raised "OverflowError")

/-- `df.sort_values("submit_time_us")`: an order of the rows by their submit times. -/
structure SortValues (F : Type) where
  sortValues : List (BorgRow F) → List (BorgRow F)
  perm : ∀ rows, (sortValues rows).Perm rows
  sorted : ∀ rows, (sortValues rows).Pairwise fun row row' => row.submitTimeUs ≤ row'.submitTimeUs

/-- A stable sort. -/
def bySubmitTime (F : Type) : SortValues F where
  sortValues rows := rows.insertionSort fun row row' => row.submitTimeUs ≤ row'.submitTimeUs
  perm rows := List.perm_insertionSort _ rows
  sorted rows :=
    have : Std.Total fun row row' : BorgRow F => row.submitTimeUs ≤ row'.submitTimeUs :=
      ⟨fun row row' => le_total row.submitTimeUs row'.submitTimeUs⟩
    have : IsTrans (BorgRow F) fun row row' => row.submitTimeUs ≤ row'.submitTimeUs :=
      ⟨fun _ _ _ => le_trans⟩
    List.pairwise_insertionSort _ rows

section Records
variable {F : Type}

/-- `int(task_idx) if task_idx else 0` -/
def taskIndexOf (C : Conversions F) (taskIdx : Text) : Except PyException ℤ :=
  if taskIdx = [] then .ok 0 else (C.int taskIdx).elim (.error (.raised "ValueError")) .ok

/-- One pass of the loop over `finishes.items()`; `none` is a `continue`. -/
def recordOf (C : Conversions F) (s : ShardState F) (item : TaskKey × ℤ) :
    Except PyException (Option (BorgRow F)) :=
  match s.submits.lookup item.1 with
  | none => .ok none
  | some submitTs =>
    let durUs := item.2 - submitTs
    if durUs ≤ 0 then .ok none
    else do
      let taskIndex ← taskIndexOf C item.1.2
      let durationMs ← millis durUs
      return some {
        jobId := item.1.1
        taskIndex := taskIndex
        submitTimeUs := submitTs
        finishTimeUs := item.2
        durationMs := durationMs
        schedulingClass := (s.schedClasses.lookup item.1).getD 0
        priority := (s.prioritiesMap.lookup item.1).getD 0
        cpuRequest := (s.cpuRequests.lookup item.1).getD C.zero
        memoryRequest := (s.memRequests.lookup item.1).getD C.zero }

/-- `records`, each with the key it was made for. -/
def recordsOf (C : Conversions F) (s : ShardState F) :
    Except PyException (List (TaskKey × BorgRow F)) :=
  (s.finishes.mapM fun item => (recordOf C s item).map (Option.map (Prod.mk item.1))).map
    List.reduceOption

/-- A table without records has no column to sort by. -/
def parseShard (C : Conversions F) (sort : SortValues F) (lines : List Text) :
    Except PyException (List (BorgRow F)) := do
  let records ← recordsOf C (readLines C lines)
  if records = [] then .error (.raised "KeyError")
  else return sort.sortValues (records.map Prod.snd)

end Records

/-! ## What a line does -/

/-- The fields of a SUBMIT line, where `none` does not convert. -/
structure SubmitLine (F : Type) where
  ts : ℤ
  schedulingClass : Option ℤ
  priority : Option ℤ
  cpuRequest : Option F
  memoryRequest : Option F

/-- A SUBMIT line all of whose fields convert. -/
@[ext]
structure Submission (F : Type) where
  ts : ℤ
  schedulingClass : ℤ
  priority : ℤ
  cpuRequest : F
  memoryRequest : F

inductive Event (F : Type)
  | submit (key : TaskKey) (fields : SubmitLine F)
  | finish (key : TaskKey) (ts : ℤ)

namespace SubmitLine
variable {F : Type} (a : SubmitLine F)

/-! A field is assigned if it and all fields before it convert. -/

def setsClass : Option ℤ := a.schedulingClass
def setsPriority : Option ℤ := a.setsClass.bind fun _ => a.priority
def setsCpu : Option F := a.setsPriority.bind fun _ => a.cpuRequest
def setsMemory : Option F := a.setsCpu.bind fun _ => a.memoryRequest

/-- The submission that the line makes, if it is well-formed. -/
def submission : Option (Submission F) := do
  return ⟨a.ts, ← a.schedulingClass, ← a.priority, ← a.cpuRequest, ← a.memoryRequest⟩

variable {a}

theorem sets_of_submission {s : Submission F} (h : a.submission = some s) :
    a.ts = s.ts ∧ a.setsClass = some s.schedulingClass ∧ a.setsPriority = some s.priority ∧
      a.setsCpu = some s.cpuRequest ∧ a.setsMemory = some s.memoryRequest := by
  obtain ⟨ts, schedulingClass, priority, cpuRequest, memoryRequest⟩ := a
  cases schedulingClass with
  | none => cases h
  | some c =>
    cases priority with
    | none => cases h
    | some q =>
      cases cpuRequest with
      | none => cases h
      | some x =>
        cases memoryRequest with
        | none => cases h
        | some y =>
          cases h
          exact ⟨rfl, rfl, rfl, rfl, rfl⟩

theorem submission_eq_none_iff : a.submission = none ↔ a.setsMemory = none := by
  obtain ⟨ts, schedulingClass, priority, cpuRequest, memoryRequest⟩ := a
  cases schedulingClass <;> cases priority <;> cases cpuRequest <;> cases memoryRequest <;>
    simp [submission, setsMemory, setsCpu, setsPriority, setsClass]

end SubmitLine

section Events
variable {F : Type}

def submitLineOf (C : Conversions F) (parts : List Text) (ts : ℤ) : SubmitLine F :=
  ⟨ts, fieldOr C.int 0 parts 7, fieldOr C.int 0 parts 8, fieldOr C.float C.zero parts 9,
    fieldOr C.float C.zero parts 10⟩

/-- The SUBMIT or FINISH event of a line whose timestamp and event type convert. -/
def eventOf (C : Conversions F) (line : Text) : Option (Event F) :=
  let parts := partsOf line
  if parts.length < 6 then none
  else do
    let ts ← C.int (parts.getD 0 [])
    let eventType ← fieldOr C.int (-1) parts 5
    let key : TaskKey := (parts.getD 2 [], parts.getD 3 [])
    if eventType = 0 then some (.submit key (submitLineOf C parts ts))
    else if eventType = 4 then some (.finish key ts)
    else none

/-- `d[key] = value` if there is a value. -/
def assignSome {ν : Type} (d : Dict TaskKey ν) (key : TaskKey) (value : Option ν) : Dict TaskKey ν :=
  value.elim d (d.insert key)

theorem lookup_assignSome {ν : Type} (d : Dict TaskKey ν) (key k : TaskKey) (value : Option ν) :
    (assignSome d key value).lookup k = (if key = k then value else none).or (d.lookup k) := by
  cases value with
  | none =>
    rw [ite_self, Option.none_or]
    rfl
  | some v =>
    by_cases hk : key = k
    · rw [if_pos hk, assignSome, Option.elim_some, ← hk, Finmap.lookup_insert, Option.some_or]
    · rw [if_neg hk, assignSome, Option.elim_some, Finmap.lookup_insert_of_ne _ (Ne.symm hk),
        Option.none_or]

/-- The dictionaries after an event. -/
def applyEvent (s : ShardState F) : Option (Event F) → ShardState F
  | none => s
  | some (.submit key a) => { s with
      submits := s.submits.insert key a.ts
      schedClasses := assignSome s.schedClasses key a.setsClass
      prioritiesMap := assignSome s.prioritiesMap key a.setsPriority
      cpuRequests := assignSome s.cpuRequests key a.setsCpu
      memRequests := assignSome s.memRequests key a.setsMemory }
  | some (.finish key ts) => { s with finishes := setItem key ts s.finishes }

@[simp] theorem applyEvent_none (s : ShardState F) : applyEvent s none = s := rfl

@[simp] theorem finishes_submit (s : ShardState F) (key : TaskKey) (a : SubmitLine F) :
    (applyEvent s (some (.submit key a))).finishes = s.finishes := rfl

@[simp] theorem finishes_finish (s : ShardState F) (key : TaskKey) (ts : ℤ) :
    (applyEvent s (some (.finish key ts))).finishes = setItem key ts s.finishes := rfl

/-- The line takes effect whole. -/
def Event.isWhole : Event F → Bool
  | .submit _ a => a.submission.isSome
  | .finish _ _ => true

theorem run_parseLine (C : Conversions F) (s : ShardState F) {line : Text}
    (hlong : ¬ (partsOf line).length < 6) :
    ((parseLine C (partsOf line)).run s).2 = applyEvent s (eventOf C line) ∧
      ∀ event, eventOf C line = some event →
        (((parseLine C (partsOf line)).run s).1 matches .error _) = !event.isWhole := by
  rw [eventOf, if_neg hlong, parseLine]
  cases C.int ((partsOf line).getD 0 []) with
  | none => exact ⟨rfl, by rintro event ⟨⟩⟩
  | some ts =>
    cases fieldOr C.int (-1) (partsOf line) 5 with
    | none => exact ⟨rfl, by rintro event ⟨⟩⟩
    | some eventType =>
      simp only [Option.bind_eq_bind, Option.bind_some]
      by_cases hsubmit : eventType = 0
      · subst hsubmit
        rw [submitLineOf]
        -- the first field that does not convert stops the assignments
        cases fieldOr C.int 0 (partsOf line) 7 with
        | none => exact ⟨rfl, by rintro event ⟨⟩; rfl⟩
        | some c =>
          cases fieldOr C.int 0 (partsOf line) 8 with
          | none => exact ⟨rfl, by rintro event ⟨⟩; rfl⟩
          | some q =>
            cases fieldOr C.float C.zero (partsOf line) 9 with
            | none => exact ⟨rfl, by rintro event ⟨⟩; rfl⟩
            | some x =>
              cases fieldOr C.float C.zero (partsOf line) 10 <;>
                exact ⟨rfl, by rintro event ⟨⟩; rfl⟩
      · by_cases hfinish : eventType = 4
        · subst hfinish
          exact ⟨rfl, by rintro event ⟨⟩; rfl⟩
        · simp only [converted, Option.elim_some, pure_bind, if_neg hsubmit, if_neg hfinish]
          exact ⟨rfl, by rintro event ⟨⟩⟩

theorem readLine_eq (C : Conversions F) (s : ShardState F) (line : Text) :
    readLine C s line = applyEvent s (eventOf C line) := by
  rw [readLine]
  split
  · next hshort => rw [eventOf, if_pos hshort]; rfl
  · next hlong => exact (run_parseLine C s hlong).1

/-- A line that reports an event raises if and only if the event is not whole. -/
theorem lineRaises_eq (C : Conversions F) (s : ShardState F) {line : Text} {event : Event F}
    (h : eventOf C line = some event) : lineRaises C s line = !event.isWhole := by
  rw [lineRaises]
  split
  · next hshort =>
    rw [eventOf, if_pos hshort] at h
    cases h
  · next hlong => exact (run_parseLine C s hlong).2 event h

end Events

end Chronoq.Bench
