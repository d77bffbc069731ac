import Chronoq.Bench.BorgShard

/-! # When a shard is parsed as if its malformed lines were not there

`lastSubmit` and `lastFinish` are what the last well-formed SUBMIT and FINISH lines of a key say, and
`tornLines` are the SUBMIT lines that raise behind that SUBMIT line. A torn line has assigned its
timestamp and some more fields already, so what the dictionaries hold of a key (`stored`) is the last
well-formed submission only where the torn lines behind it say the same (`stored_eq_some_iff`). Besides,
the second loop raises on a task index or a duration that does not convert, and sorting raises when no
key has a record. `skipsMalformed_iff`: apart from these cases the malformed lines have no effect. -/

namespace Chronoq.Bench
open Foundations

set_option autoImplicit false

/-! ## What the lines say of a key -/

section Lines
variable {F : Type} (C : Conversions F) (lines : List Text) (key : TaskKey)

def submitOf (line : Text) : Option (SubmitLine F) :=
  match eventOf C line with
  | some (.submit k a) => if k = key then some a else none
  | _ => none

def finishOf (line : Text) : Option ℤ :=
  match eventOf C line with
  | some (.finish k ts) => if k = key then some ts else none
  | _ => none

def submitLines : List (SubmitLine F) := lines.filterMap (submitOf C key)

/-- What the last well-formed SUBMIT line says. -/
def lastSubmit : Option (Submission F) := lastWhole SubmitLine.submission (submitLines C lines key)

/-- The SUBMIT lines behind it, which all raise. -/
def tornLines : List (SubmitLine F) := after SubmitLine.submission (submitLines C lines key)

def lastFinish : Option ℤ := (lines.filterMap (finishOf C key)).getLast?

/-- The last well-formed FINISH is later than the last well-formed SUBMIT. -/
def Completes : Prop := ∃ s ∈ lastSubmit C lines key, ∃ f ∈ lastFinish C lines key, s.ts < f

end Lines

/-! ## What the dictionaries hold of a key -/

section Stored
variable {F : Type} {C : Conversions F} {lines : List Text} {key : TaskKey}

theorem readLines_eq (C : Conversions F) (lines : List Text) :
    readLines C lines = lines.foldl (fun s line => applyEvent s (eventOf C line)) {} := by
  rw [readLines]
  congr 1
  funext s line
  exact readLine_eq C s line

/-- A dictionary of fields holds the last value that a torn line has assigned, or else that of the last
well-formed line. -/
theorem lookup_readLines {ν : Type} (dict : ShardState F → Dict TaskKey ν)
    (sets : SubmitLine F → Option ν) (value : Submission F → ν) (hempty : dict {} = ∅)
    (hsubmit : ∀ s k a, dict (applyEvent s (some (.submit k a))) = assignSome (dict s) k (sets a))
    (hfinish : ∀ s k ts, dict (applyEvent s (some (.finish k ts))) = dict s)
    (hwhole : ∀ a s, a.submission = some s → sets a = some (value s)) :
    (dict (readLines C lines)).lookup key =
      ((tornLines C lines key).filterMap sets).getLast?.or
        ((lastSubmit C lines key).map value) := by
  have hread := read_foldl (fun s line => applyEvent s (eventOf C line)) (fun s => (dict s).lookup key)
    (fun line => (submitOf C key line).bind sets)
    (by
      intro s line
      rw [submitOf]
      cases eventOf C line with
      | none => rfl
      | some event =>
        cases event with
        | finish k ts =>
          rw [hfinish]
          rfl
        | submit k a =>
          rw [hsubmit, lookup_assignSome]
          by_cases hk : k = key
          · simp [hk]
          · simp [hk]) lines {}
  rw [readLines_eq, hread, hempty, Finmap.lookup_empty, Option.or_none]
  rw [tornLines, lastSubmit, ← getLast?_filterMap hwhole, submitLines, List.filterMap_filterMap]

/-- What the second loop reads of a key. -/
def stored (C : Conversions F) (s : ShardState F) (key : TaskKey) : Option (Submission F) :=
  (s.submits.lookup key).map fun ts =>
    { ts
      schedulingClass := (s.schedClasses.lookup key).getD 0
      priority := (s.prioritiesMap.lookup key).getD 0
      cpuRequest := (s.cpuRequests.lookup key).getD C.zero
      memoryRequest := (s.memRequests.lookup key).getD C.zero }

theorem submits_readLines (C : Conversions F) (lines : List Text) (key : TaskKey) :
    (readLines C lines).submits.lookup key =
      ((tornLines C lines key).getLast?.map SubmitLine.ts).or
        ((lastSubmit C lines key).map Submission.ts) := by
  rw [lookup_readLines ShardState.submits (fun a => some a.ts) Submission.ts rfl (fun _ _ _ => rfl)
    (fun _ _ _ => rfl) fun a s h => congrArg some (SubmitLine.sets_of_submission h).1]
  rw [List.filterMap_eq_map', List.getLast?_map]

theorem schedClasses_readLines (C : Conversions F) (lines : List Text) (key : TaskKey) :
    (readLines C lines).schedClasses.lookup key =
      ((tornLines C lines key).filterMap SubmitLine.setsClass).getLast?.or
        ((lastSubmit C lines key).map Submission.schedulingClass) :=
  lookup_readLines ShardState.schedClasses _ _ rfl (fun _ _ _ => rfl) (fun _ _ _ => rfl)
    fun _ _ h => (SubmitLine.sets_of_submission h).2.1

theorem prioritiesMap_readLines (C : Conversions F) (lines : List Text) (key : TaskKey) :
    (readLines C lines).prioritiesMap.lookup key =
      ((tornLines C lines key).filterMap SubmitLine.setsPriority).getLast?.or
        ((lastSubmit C lines key).map Submission.priority) :=
  lookup_readLines ShardState.prioritiesMap _ _ rfl (fun _ _ _ => rfl) (fun _ _ _ => rfl)
    fun _ _ h => (SubmitLine.sets_of_submission h).2.2.1

theorem cpuRequests_readLines (C : Conversions F) (lines : List Text) (key : TaskKey) :
    (readLines C lines).cpuRequests.lookup key =
      ((tornLines C lines key).filterMap SubmitLine.setsCpu).getLast?.or
        ((lastSubmit C lines key).map Submission.cpuRequest) :=
  lookup_readLines ShardState.cpuRequests _ _ rfl (fun _ _ _ => rfl) (fun _ _ _ => rfl)
    fun _ _ h => (SubmitLine.sets_of_submission h).2.2.2.1

theorem memRequests_readLines (C : Conversions F) (lines : List Text) (key : TaskKey) :
    (readLines C lines).memRequests.lookup key =
      (lastSubmit C lines key).map Submission.memoryRequest := by
  rw [lookup_readLines ShardState.memRequests SubmitLine.setsMemory Submission.memoryRequest rfl
    (fun _ _ _ => rfl) (fun _ _ _ => rfl) fun _ _ h => (SubmitLine.sets_of_submission h).2.2.2.2]
  have hnone : (tornLines C lines key).filterMap SubmitLine.setsMemory = [] := by
    rw [List.filterMap_eq_nil_iff]
    intro a ha
    have htorn := List.mem_rtakeWhile_imp ha
    rw [Option.isNone_iff_eq_none] at htorn
    exact SubmitLine.submission_eq_none_iff.mp htorn
  rw [hnone, List.getLast?_nil, Option.none_or]

/-- What the torn lines have assigned is what the submission says. -/
structure SaysAgain (torn : List (SubmitLine F)) (s : Submission F) : Prop where
  ts : ∀ a ∈ torn.getLast?, a.ts = s.ts
  schedulingClass : ∀ c ∈ (torn.filterMap SubmitLine.setsClass).getLast?, c = s.schedulingClass
  priority : ∀ q ∈ (torn.filterMap SubmitLine.setsPriority).getLast?, q = s.priority
  cpuRequest : ∀ x ∈ (torn.filterMap SubmitLine.setsCpu).getLast?, x = s.cpuRequest

theorem getD_eq_iff {α : Type} {o : Option α} {v : α} : o.getD v = v ↔ ∀ w ∈ o, w = v := by
  cases o with
  | none => simp
  | some w => simp

theorem stored_eq_some_iff {s : Submission F} (hs : lastSubmit C lines key = some s) :
    stored C (readLines C lines) key = some s ↔ SaysAgain (tornLines C lines key) s := by
  rw [stored, submits_readLines, schedClasses_readLines, prioritiesMap_readLines,
    cpuRequests_readLines, memRequests_readLines, hs]
  simp only [Option.map_some, Option.or_some, Option.some_inj, Submission.ext_iff, Option.getD_some,
    getD_eq_iff, and_true, Option.mem_map, forall_exists_index, and_imp, forall_apply_eq_imp_iff₂]
  constructor
  · rintro ⟨hts, hclass, hpriority, hcpu⟩
    exact ⟨hts, hclass, hpriority, hcpu⟩
  · rintro ⟨hts, hclass, hpriority, hcpu⟩
    exact ⟨hts, hclass, hpriority, hcpu⟩

/-- The submit time that is held is that of the last torn line, or else of the last well-formed one. -/
theorem stored_ts (C : Conversions F) (lines : List Text) (key : TaskKey) :
    (stored C (readLines C lines) key).map Submission.ts =
      ((tornLines C lines key).getLast?.map SubmitLine.ts).or
        ((lastSubmit C lines key).map Submission.ts) := by
  rw [stored, Option.map_map, ← submits_readLines]
  exact Option.map_id' ..

/-! ## The FINISH times -/

theorem lookup_finishes (C : Conversions F) (lines : List Text) (key : TaskKey) :
    (readLines C lines).finishes.lookup key = lastFinish C lines key := by
  rw [readLines_eq, lastFinish]
  have hread := read_foldl (fun s line => applyEvent s (eventOf C line)) (fun s => s.finishes.lookup key)
    (finishOf C key)
    (by
      intro s line
      rw [finishOf]
      cases eventOf C line with
      | none => rfl
      | some event =>
        cases event with
        | submit k a => rfl
        | finish k ts =>
          rw [finishes_finish, lookup_setItem]
          by_cases hk : k = key
          · simp [hk]
          · simp [hk, Ne.symm hk]) lines {}
  rw [hread]
  exact Option.or_none

theorem uniqueKeys_finishes (C : Conversions F) (lines : List Text) :
    UniqueKeys (readLines C lines).finishes := by
  rw [readLines_eq]
  induction lines using List.reverseRecOn with
  | nil => exact List.nodup_nil
  | append_singleton lines line ih =>
    rw [List.foldl_concat]
    cases eventOf C line with
    | none => exact ih
    | some event =>
      cases event with
      | submit k a => exact ih
      | finish k ts => exact ih.setItem k ts

theorem mem_finishes {f : ℤ} :
    (key, f) ∈ (readLines C lines).finishes ↔ lastFinish C lines key = some f := by
  rw [(uniqueKeys_finishes C lines).mem_iff_lookup, lookup_finishes]

end Stored

/-! ## The lines that do not raise -/

section WellFormed
variable {F : Type}

def wellFormed (C : Conversions F) (s : ShardState F) (lines : List Text) : List Text :=
  lines.filter fun line => !lineRaises C s line

variable {C : Conversions F} {s : ShardState F} {lines : List Text} {key : TaskKey}

theorem submitLines_wellFormed (C : Conversions F) (s : ShardState F) (lines : List Text)
    (key : TaskKey) : submitLines C (wellFormed C s lines) key =
      (submitLines C lines key).filter fun a => a.submission.isSome := by
  rw [submitLines, wellFormed, submitLines, List.filterMap_filter, List.filter_filterMap]
  congr 1
  funext line
  rw [submitOf]
  cases hevent : eventOf C line with
  | none => simp
  | some event =>
    rw [lineRaises_eq C s hevent, Bool.not_not]
    cases event with
    | finish k ts => simp
    | submit k a =>
      rw [Event.isWhole]
      by_cases hk : k = key
      · simp [hk, Option.filter]
      · simp [hk]

theorem lastSubmit_wellFormed (C : Conversions F) (s : ShardState F) (lines : List Text)
    (key : TaskKey) : lastSubmit C (wellFormed C s lines) key = lastSubmit C lines key := by
  rw [lastSubmit, submitLines_wellFormed, lastWhole_filter_whole, lastSubmit]

theorem tornLines_wellFormed (C : Conversions F) (s : ShardState F) (lines : List Text)
    (key : TaskKey) : tornLines C (wellFormed C s lines) key = [] := by
  rw [tornLines, submitLines_wellFormed, after_filter_whole]

/-- A line that raises has not changed the FINISH times. -/
theorem finishes_wellFormed (C : Conversions F) (s : ShardState F) (lines : List Text) :
    (readLines C (wellFormed C s lines)).finishes = (readLines C lines).finishes := by
  rw [readLines_eq, readLines_eq]
  induction lines using List.reverseRecOn with
  | nil => rfl
  | append_singleton lines line ih =>
    have hsplit : wellFormed C s (lines ++ [line]) = wellFormed C s lines ++ wellFormed C s [line] :=
      List.filter_append ..
    rw [hsplit, List.foldl_append, List.foldl_concat]
    cases hevent : eventOf C line with
    | none =>
      cases hraises : lineRaises C s line with
      | true => simpa [wellFormed, hraises] using ih
      | false => simpa [wellFormed, hraises, hevent] using ih
    | some event =>
      have hraises := lineRaises_eq C s hevent
      cases event with
      | finish k ts =>
        simpa [wellFormed, hraises, Event.isWhole, hevent] using congrArg (setItem k ts) ih
      | submit k a =>
        cases hwhole : a.submission.isSome with
        | true => simpa [wellFormed, hraises, Event.isWhole, hwhole, hevent] using ih
        | false => simpa [wellFormed, hraises, Event.isWhole, hwhole] using ih

end WellFormed

/-! ## Records -/

section Records
variable {F : Type} {C : Conversions F} {s : Submission F} {key : TaskKey} {f : ℤ} {row : BorgRow F}

/-- The row of a key submitted and finished so. -/
structure Shows (C : Conversions F) (key : TaskKey) (s : Submission F) (f : ℤ) (row : BorgRow F) :
    Prop where
  jobId : row.jobId = key.1
  taskIndex : taskIndexOf C key.2 = .ok row.taskIndex
  durationMs : row.durationMs = ((f - s.ts : ℤ) : ℚ) / 1000
  schedulingClass : row.schedulingClass = s.schedulingClass
  priority : row.priority = s.priority
  cpuRequest : row.cpuRequest = s.cpuRequest
  memoryRequest : row.memoryRequest = s.memoryRequest

/-- The record of a submission. -/
def recordFrom (C : Conversions F) (key : TaskKey) (f : ℤ) (s : Submission F) :
    Except PyException (Option (BorgRow F)) :=
  if f - s.ts ≤ 0 then .ok none
  else do
    let taskIndex ← taskIndexOf C key.2
    let durationMs ← millis (f - s.ts)
    return some {
      jobId := key.1
      taskIndex := taskIndex
      submitTimeUs := s.ts
      finishTimeUs := f
      durationMs := durationMs
      schedulingClass := s.schedulingClass
      priority := s.priority
      cpuRequest := s.cpuRequest
      memoryRequest := s.memoryRequest }

theorem recordOf_eq (C : Conversions F) (state : ShardState F) (key : TaskKey) (f : ℤ) :
    recordOf C state (key, f) = (stored C state key).elim (.ok none) (recordFrom C key f) := by
  rw [recordOf, stored]
  cases state.submits.lookup key with
  | none => rfl
  | some ts => rfl

/-- The task index is an integer or absent, and the duration is in the range of a float. -/
structure Readable (C : Conversions F) (key : TaskKey) (s : Submission F) (f : ℤ) : Prop where
  taskIndex : key.2 = [] ∨ (C.int key.2).isSome
  duration : f - s.ts < floatLimit

theorem taskIndexOf_ok_iff {taskIdx : Text} :
    (∃ i, taskIndexOf C taskIdx = .ok i) ↔ taskIdx = [] ∨ (C.int taskIdx).isSome := by
  rw [taskIndexOf]
  split
  · next hempty => simp [hempty]
  · next hne =>
    cases C.int taskIdx with
    | none => simp [hne]
    | some i => simp

theorem millis_ok_iff {durUs : ℤ} {ms : ℚ} :
    millis durUs = .ok ms ↔ durUs < floatLimit ∧ ms = durUs / 1000 := by
  rw [millis]
  split
  · next hlt => simp [hlt, eq_comm]
  · next hge => simp [hge]

theorem recordFrom_none (h : f ≤ s.ts) : recordFrom C key f s = .ok none := if_pos (by omega)

theorem shows_of_recordFrom_ok (hlater : s.ts < f) {o : Option (BorgRow F)}
    (h : recordFrom C key f s = .ok o) : ∃ row, o = some row ∧ Readable C key s f ∧ Shows C key s f row := by
  rw [recordFrom, if_neg (by omega)] at h
  cases hindex : taskIndexOf C key.2 with
  | error e => rw [hindex] at h; cases h
  | ok i =>
    cases hms : millis (f - s.ts) with
    | error e => rw [hindex, hms] at h; cases h
    | ok ms =>
      obtain ⟨hlimit, hduration⟩ := millis_ok_iff.mp hms
      rw [hindex, hms] at h
      cases h
      exact ⟨_, rfl, ⟨taskIndexOf_ok_iff.mp ⟨i, hindex⟩, hlimit⟩,
        ⟨rfl, hindex, hduration, rfl, rfl, rfl, rfl⟩⟩

theorem recordFrom_eq_none_iff : recordFrom C key f s = .ok none ↔ f ≤ s.ts := by
  constructor
  · intro h
    by_contra hlater
    obtain ⟨row, hrow, -⟩ := shows_of_recordFrom_ok (by omega) h
    cases hrow
  · exact recordFrom_none

theorem shows_of_recordFrom (h : recordFrom C key f s = .ok (some row)) :
    s.ts < f ∧ Readable C key s f ∧ Shows C key s f row := by
  have hlater : s.ts < f := by
    by_contra hearly
    rw [recordFrom_none (by omega)] at h
    cases h
  obtain ⟨row', hrow, hreadable, hshows⟩ := shows_of_recordFrom_ok hlater h
  cases hrow
  exact ⟨hlater, hreadable, hshows⟩

theorem exists_recordFrom (hlater : s.ts < f) (hreadable : Readable C key s f) :
    ∃ row, recordFrom C key f s = .ok (some row) := by
  obtain ⟨i, hi⟩ := taskIndexOf_ok_iff.mpr hreadable.taskIndex
  rw [recordFrom, if_neg (by omega), hi, millis_ok_iff.mpr ⟨hreadable.duration, rfl⟩]
  exact ⟨_, rfl⟩

/-- A row shows one submission only. -/
theorem Shows.submission_eq {s' : Submission F} (h : Shows C key s f row)
    (h' : Shows C key s' f row) : s = s' := by
  have hts : s.ts = s'.ts := by
    have hduration := h.durationMs.symm.trans h'.durationMs
    rw [div_left_inj' (by norm_num), Int.cast_inj] at hduration
    omega
  exact Submission.ext hts (h.schedulingClass.symm.trans h'.schedulingClass)
    (h.priority.symm.trans h'.priority) (h.cpuRequest.symm.trans h'.cpuRequest)
    (h.memoryRequest.symm.trans h'.memoryRequest)

end Records

/-! ## The list of records -/

section RecordList
variable {F : Type} {C : Conversions F} {state : ShardState F} {records : List (TaskKey × BorgRow F)}
  {key : TaskKey} {f : ℤ} {row : BorgRow F}

theorem recordsOf_ok (h : recordsOf C state = .ok records) :
    ∀ item ∈ state.finishes, ∃ o, recordOf C state item = .ok o := by
  intro item hitem
  obtain ⟨options, hoptions, -⟩ := exists_of_map_ok h
  obtain ⟨o, -, ho⟩ := exists_mem_of_mapM_ok hoptions hitem
  obtain ⟨o', ho', -⟩ := exists_of_map_ok ho
  exact ⟨o', ho'⟩

theorem exists_recordsOf (h : ∀ item ∈ state.finishes, ∃ o, recordOf C state item = .ok o) :
    ∃ records, recordsOf C state = .ok records := by
  obtain ⟨options, hoptions⟩ := exists_mapM_ok
    (f := fun item => (recordOf C state item).map (Option.map (Prod.mk item.1))) fun item hitem => by
      obtain ⟨o, ho⟩ := h item hitem
      exact ⟨o.map (Prod.mk item.1), by rw [ho]; rfl⟩
  exact ⟨options.reduceOption, by rw [recordsOf, hoptions]; rfl⟩

theorem mem_recordsOf (h : recordsOf C state = .ok records) :
    (key, row) ∈ records ↔ ∃ f, (key, f) ∈ state.finishes ∧ recordOf C state (key, f) = .ok (some row) := by
  obtain ⟨options, hoptions, rfl⟩ := exists_of_map_ok h
  rw [List.reduceOption_mem_iff]
  constructor
  · intro hmem
    obtain ⟨⟨k, f⟩, hitem, hrecord⟩ := exists_of_mem_mapM_ok hoptions hmem
    obtain ⟨o, ho, hpair⟩ := exists_of_map_ok hrecord
    obtain ⟨row', rfl, hrow⟩ := Option.map_eq_some_iff.mp hpair
    cases hrow
    exact ⟨f, hitem, ho⟩
  · rintro ⟨f, hitem, hrecord⟩
    obtain ⟨o, ho, hpair⟩ := exists_mem_of_mapM_ok hoptions hitem
    rw [hrecord] at hpair
    cases hpair
    exact ho

theorem nodup_recordsOf (hunique : UniqueKeys state.finishes) (h : recordsOf C state = .ok records) :
    (records.map Prod.fst).Nodup := by
  obtain ⟨options, hoptions, rfl⟩ := exists_of_map_ok h
  refine (reduceOption_map_sublist (fun item entry hentry => ?_) hoptions).nodup hunique
  obtain ⟨o, -, hpair⟩ := exists_of_map_ok hentry
  obtain ⟨row, -, rfl⟩ := Option.map_eq_some_iff.mp hpair
  rfl

theorem recordsOf_congr {state' : ShardState F} (hfinishes : state.finishes = state'.finishes)
    (h : ∀ item ∈ state.finishes, recordOf C state item = recordOf C state' item) :
    recordsOf C state = recordsOf C state' := by
  rw [recordsOf, recordsOf, ← hfinishes]
  congr 1
  exact mapM_congr fun item hitem => by rw [h item hitem]

theorem parseShard_eq_ok_iff {sort : SortValues F} {lines : List Text} {df : List (BorgRow F)} :
    parseShard C sort lines = .ok df ↔
      ∃ records, recordsOf C (readLines C lines) = .ok records ∧ records ≠ [] ∧
        df = sort.sortValues (records.map Prod.snd) := by
  rw [parseShard]
  cases recordsOf C (readLines C lines) with
  | error e => exact iff_of_false (by rintro ⟨⟩) (by rintro ⟨records, ⟨⟩, -⟩)
  | ok records =>
    change (if records = [] then Except.error (PyException.raised "KeyError")
      else Except.ok (sort.sortValues (records.map Prod.snd))) = Except.ok df ↔ _
    split
    · next hempty =>
      refine iff_of_false (by rintro ⟨⟩) ?_
      rintro ⟨records', hrecords', hne, -⟩
      exact hne (Except.ok.inj hrecords' ▸ hempty)
    · next hne =>
      constructor
      · intro h
        exact ⟨records, rfl, hne, (Except.ok.inj h).symm⟩
      · rintro ⟨records', hrecords', -, rfl⟩
        cases hrecords'
        rfl

end RecordList

/-! ## Whole shards -/

section Shard
variable {F : Type} {C : Conversions F} {sort : SortValues F} {lines : List Text}

/-- What a key's dictionaries lead to, where they hold its last well-formed submission. -/
def wholeRecord (C : Conversions F) (lines : List Text) (key : TaskKey) (f : ℤ) :
    Except PyException (Option (BorgRow F)) :=
  (lastSubmit C lines key).elim (.ok none) (recordFrom C key f)

/-- The shard is parsed to a table, malformed lines have no effect on it, and it has a row of exactly the
keys that complete, with what their last well-formed lines say. -/
def SkipsMalformed (C : Conversions F) (sort : SortValues F) (lines : List Text) : Prop :=
  ∃ records, recordsOf C (readLines C lines) = .ok records ∧ (records.map Prod.fst).Nodup ∧
    (∃ df, parseShard C sort lines = .ok df ∧ df.Perm (records.map Prod.snd) ∧
      ∀ s, parseShard C sort (wellFormed C s lines) = .ok df) ∧
    (∀ key, key ∈ records.map Prod.fst ↔ Completes C lines key) ∧
    ∀ key row, (key, row) ∈ records → ∀ s ∈ lastSubmit C lines key, ∀ f ∈ lastFinish C lines key,
      Shows C key s f row

/-- When the malformed lines can be skipped: what the torn lines have assigned does not matter for any key,
every key that completes can be made a record of, and there is one such key. -/
structure Skippable (C : Conversions F) (lines : List Text) : Prop where
  completes : ∃ key, Completes C lines key
  readable : ∀ key, ∀ s ∈ lastSubmit C lines key, ∀ f ∈ lastFinish C lines key, s.ts < f →
    Readable C key s f
  again : ∀ key, ∀ s ∈ lastSubmit C lines key, ∀ f ∈ lastFinish C lines key, s.ts < f →
    SaysAgain (tornLines C lines key) s
  late : ∀ key, ∀ f ∈ lastFinish C lines key, ¬ Completes C lines key →
    ∀ a ∈ (tornLines C lines key).getLast?, f ≤ a.ts

theorem not_completes {key : TaskKey} {s : Submission F} {f : ℤ} (hf : f ∈ lastFinish C lines key)
    (h : ¬ Completes C lines key) (hs : s ∈ lastSubmit C lines key) : f ≤ s.ts := by
  by_contra hlater
  exact h ⟨s, hs, f, hf, by omega⟩

theorem wholeRecord_of_not_completes {key : TaskKey} {f : ℤ} (hf : f ∈ lastFinish C lines key)
    (h : ¬ Completes C lines key) : wholeRecord C lines key f = .ok none := by
  rw [wholeRecord]
  cases hs : lastSubmit C lines key with
  | none => rfl
  | some s => exact recordFrom_none (not_completes hf h hs)

theorem recordOf_eq_wholeRecord {key : TaskKey} {f : ℤ} (hf : f ∈ lastFinish C lines key)
    (hagain : ∀ s ∈ lastSubmit C lines key, s.ts < f → SaysAgain (tornLines C lines key) s)
    (hlate : ¬ Completes C lines key → ∀ a ∈ (tornLines C lines key).getLast?, f ≤ a.ts) :
    recordOf C (readLines C lines) (key, f) = wholeRecord C lines key f := by
  rw [recordOf_eq]
  by_cases hcompletes : Completes C lines key
  · obtain ⟨s, hs, f', hf', hlater⟩ := hcompletes
    obtain rfl := Option.mem_unique hf hf'
    rw [wholeRecord, (stored_eq_some_iff hs).mpr (hagain s hs hlater), hs]
  · rw [wholeRecord_of_not_completes hf hcompletes]
    cases hstored : stored C (readLines C lines) key with
    | none => rfl
    | some st =>
      refine recordFrom_none ?_
      have hts := stored_ts C lines key
      rw [hstored, Option.map_some] at hts
      -- the time that is held comes from the last torn line or from the submission
      cases htorn : (tornLines C lines key).getLast? with
      | some a =>
        rw [htorn, Option.map_some, Option.some_or, Option.some_inj] at hts
        rw [hts]
        exact hlate hcompletes a htorn
      | none =>
        rw [htorn, Option.map_none, Option.none_or] at hts
        obtain ⟨s, hs, hsts⟩ := Option.map_eq_some_iff.mp hts.symm
        rw [← hsts]
        exact not_completes hf hcompletes hs

theorem recordOf_wellFormed {key : TaskKey} {f : ℤ} (state : ShardState F)
    (hf : f ∈ lastFinish C lines key) :
    recordOf C (readLines C (wellFormed C state lines)) (key, f) = wholeRecord C lines key f := by
  have hfinish : f ∈ lastFinish C (wellFormed C state lines) key := by
    rw [Option.mem_def, ← mem_finishes, finishes_wellFormed, mem_finishes]
    exact hf
  rw [recordOf_eq_wholeRecord hfinish, wholeRecord, lastSubmit_wellFormed, wholeRecord]
  · intro s _ _
    rw [tornLines_wellFormed]
    exact ⟨by simp, by simp, by simp, by simp⟩
  · intro _ a ha
    rw [tornLines_wellFormed] at ha
    cases ha

theorem wholeRecord_ok (hreadable : ∀ key, ∀ s ∈ lastSubmit C lines key,
    ∀ f ∈ lastFinish C lines key, s.ts < f → Readable C key s f) {key : TaskKey} {f : ℤ}
    (hf : f ∈ lastFinish C lines key) : ∃ o, wholeRecord C lines key f = .ok o := by
  by_cases hcompletes : Completes C lines key
  · obtain ⟨s, hs, f', hf', hlater⟩ := hcompletes
    obtain rfl := Option.mem_unique hf hf'
    obtain ⟨row, hrow⟩ := exists_recordFrom hlater (hreadable key s hs f hf hlater)
    rw [wholeRecord, hs]
    exact ⟨some row, hrow⟩
  · exact ⟨none, wholeRecord_of_not_completes hf hcompletes⟩

theorem shows_of_wholeRecord {key : TaskKey} {f : ℤ} {row : BorgRow F}
    (h : wholeRecord C lines key f = .ok (some row)) :
    ∃ s ∈ lastSubmit C lines key, s.ts < f ∧ Shows C key s f row := by
  rw [wholeRecord] at h
  cases hs : lastSubmit C lines key with
  | none => rw [hs] at h; cases h
  | some s =>
    rw [hs] at h
    obtain ⟨hlater, -, hshows⟩ := shows_of_recordFrom h
    exact ⟨s, rfl, hlater, hshows⟩

theorem skipsMalformed_of_skippable (sort : SortValues F) (h : Skippable C lines) :
    SkipsMalformed C sort lines := by
  have hrecord : ∀ item ∈ (readLines C lines).finishes,
      recordOf C (readLines C lines) item = wholeRecord C lines item.1 item.2 := by
    rintro ⟨key, f⟩ hitem
    have hf := mem_finishes.mp hitem
    exact recordOf_eq_wholeRecord hf (fun s hs => h.again key s hs f hf) (h.late key f hf)
  obtain ⟨records, hrecords⟩ : ∃ records, recordsOf C (readLines C lines) = .ok records := by
    refine exists_recordsOf ?_
    rintro ⟨key, f⟩ hitem
    obtain ⟨o, ho⟩ := wholeRecord_ok h.readable (mem_finishes.mp hitem)
    exact ⟨o, by rw [hrecord _ hitem, ho]⟩
  have hmem : ∀ key row, (key, row) ∈ records ↔
      ∃ f ∈ lastFinish C lines key, wholeRecord C lines key f = .ok (some row) := by
    intro key row
    rw [mem_recordsOf hrecords]
    refine exists_congr fun f => ?_
    rw [mem_finishes, Option.mem_def]
    exact and_congr_right fun hf => by rw [hrecord _ (mem_finishes.mpr hf)]
  have hkeys : ∀ key, key ∈ records.map Prod.fst ↔ Completes C lines key := by
    intro key
    rw [List.mem_map]
    constructor
    · rintro ⟨⟨key, row⟩, hrow, rfl⟩
      obtain ⟨f, hf, hwhole⟩ := (hmem key row).mp hrow
      obtain ⟨s, hs, hlater, -⟩ := shows_of_wholeRecord hwhole
      exact ⟨s, hs, f, hf, hlater⟩
    · rintro ⟨s, hs, f, hf, hlater⟩
      obtain ⟨row, hrow⟩ := exists_recordFrom hlater (h.readable key s hs f hf hlater)
      refine ⟨(key, row), (hmem key row).mpr ⟨f, hf, ?_⟩, rfl⟩
      rw [wholeRecord, hs]
      exact hrow
  have hne : records ≠ [] := by
    obtain ⟨key, hkey⟩ := h.completes
    rintro rfl
    cases (hkeys key).mpr hkey
  refine ⟨records, hrecords, nodup_recordsOf (uniqueKeys_finishes C lines) hrecords,
    ⟨sort.sortValues (records.map Prod.snd), parseShard_eq_ok_iff.mpr ⟨records, hrecords, hne, rfl⟩,
      sort.perm _, fun state => parseShard_eq_ok_iff.mpr ⟨records, ?_, hne, rfl⟩⟩, hkeys, ?_⟩
  · rw [← hrecords]
    refine recordsOf_congr (finishes_wellFormed C state lines) ?_
    rintro ⟨key, f⟩ hitem
    rw [finishes_wellFormed] at hitem
    rw [recordOf_wellFormed state (mem_finishes.mp hitem), hrecord _ hitem]
  · intro key row hrow s hs f hf
    obtain ⟨f', hf', hwhole⟩ := (hmem key row).mp hrow
    obtain ⟨s', hs', -, hshows⟩ := shows_of_wholeRecord hwhole
    obtain rfl := Option.mem_unique hf hf'
    obtain rfl := Option.mem_unique hs hs'
    exact hshows

theorem skippable_of_skipsMalformed (h : SkipsMalformed C sort lines) : Skippable C lines := by
  obtain ⟨records, hrecords, -, ⟨df, hdf, -⟩, hkeys, hshows⟩ := h
  -- the record of a key that completes comes from the submission that is held, and shows the last one
  have hstored : ∀ key, ∀ s ∈ lastSubmit C lines key, ∀ f ∈ lastFinish C lines key, s.ts < f →
      stored C (readLines C lines) key = some s ∧ Readable C key s f := by
    intro key s hs f hf hlater
    obtain ⟨⟨key, row⟩, hrow, rfl⟩ := List.mem_map.mp ((hkeys key).mpr ⟨s, hs, f, hf, hlater⟩)
    obtain ⟨f', hf', hrecord⟩ := (mem_recordsOf hrecords).mp hrow
    obtain rfl := Option.mem_unique hf (mem_finishes.mp hf')
    have hshow := hshows key row hrow s hs f hf
    rw [recordOf_eq] at hrecord
    cases hst : stored C (readLines C lines) key with
    | none => rw [hst] at hrecord; cases hrecord
    | some st =>
      rw [hst, Option.elim_some] at hrecord
      obtain ⟨-, hreadable, hshow'⟩ := shows_of_recordFrom hrecord
      obtain rfl := hshow.submission_eq hshow'
      exact ⟨rfl, hreadable⟩
  refine ⟨?_, fun key s hs f hf hlater => (hstored key s hs f hf hlater).2,
    fun key s hs f hf hlater => (stored_eq_some_iff hs).mp (hstored key s hs f hf hlater).1, ?_⟩
  · obtain ⟨records', hrecords', hne, -⟩ := parseShard_eq_ok_iff.mp hdf
    obtain rfl := Except.ok.inj (hrecords.symm.trans hrecords')
    obtain ⟨⟨key, row⟩, hrow⟩ := List.exists_mem_of_ne_nil _ hne
    exact ⟨key, (hkeys key).mp (List.mem_map_of_mem hrow)⟩
  · intro key f hf hnot a ha
    have hts := stored_ts C lines key
    rw [Option.mem_def.mp ha, Option.map_some, Option.some_or] at hts
    obtain ⟨st, hst, hstts⟩ := Option.map_eq_some_iff.mp hts
    obtain ⟨o, ho⟩ := recordsOf_ok hrecords (key, f) (mem_finishes.mpr hf)
    cases o with
    | some row =>
      have hrow := (mem_recordsOf hrecords).mpr ⟨f, mem_finishes.mpr hf, ho⟩
      exact absurd ((hkeys key).mp (List.mem_map_of_mem hrow)) hnot
    | none =>
      rw [recordOf_eq, hst, Option.elim_some, recordFrom_eq_none_iff, hstts] at ho
      exact ho

/-- The exact condition under which the parser skips malformed lines whole. -/
theorem skipsMalformed_iff (C : Conversions F) (sort : SortValues F) (lines : List Text) :
    SkipsMalformed C sort lines ↔ Skippable C lines :=
  ⟨skippable_of_skipsMalformed, skipsMalformed_of_skippable sort⟩

end Shard

/-- The second SUBMIT line of a task has a scheduling class that is not an integer. -/
def tornShard : List Text := ["5,,7,0,,0".toList, "9,,7,0,,0,,x".toList, "20,,7,0,,4".toList]

/-- The task index is not an integer. -/
def unindexedShard : List Text := ["5,,7,x,,0".toList, "20,,7,x,,4".toList]

/-- A timestamp that a line has assigned before it raises replaces the one of the line before; a task index
that does not convert raises after the lines have been read; and without records there is nothing to sort.
-/
theorem malformed_lines_matter :
    ¬ SkipsMalformed decimals (bySubmitTime ExtFloat) tornShard ∧
      ¬ SkipsMalformed decimals (bySubmitTime ExtFloat) unindexedShard ∧
      ¬ SkipsMalformed decimals (bySubmitTime ExtFloat) [] := by
  refine ⟨fun h => ?_, fun h => ?_, fun h => ?_⟩
  · have hagain := (skippable_of_skipsMalformed h).again (['7'], ['0']) ⟨5, 0, 0, .finite 0, .finite 0⟩ rfl 20 rfl
      (by decide)
    have hts := hagain.ts ⟨9, none, some 0, some (.finite 0), some (.finite 0)⟩ rfl
    cases hts
  · have hreadable := (skippable_of_skipsMalformed h).readable (['7'], ['x']) ⟨5, 0, 0, .finite 0, .finite 0⟩ rfl 20 rfl
      (by decide)
    exact absurd hreadable.taskIndex (by decide)
  · obtain ⟨key, s, hs, -⟩ := (skippable_of_skipsMalformed h).completes
    cases hs

end Chronoq.Bench
