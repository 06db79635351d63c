import ReversePolish.Conversion.Log

/-!
# Reading a log back

A log is read as lines, and a line is two texts.  What a step of a conversion was can be told from
its line alone.  A message puts the operators that it names in quotes, and no operator is shown
with a quote, so that cutting the message at its quotes gives back the words it was joined from
(`Log.words_message`).  The first word tells what was done, and the operators are told from how they
are shown.

* `Log.Record.ofLine?` — the record of a step, read from its line.
* **A step is determined by its line** (`Log.Record.ofLine?_eq_some_iff`).
* `Log.readBack?_eq_some_iff` — the same for a log of steps.

The report of a fault is not read back: its message quotes names and texts, in which quotes may
stand.
-/

namespace ReversePolish.Log

/-! ## Words between quotes -/

/-- The words of a message, cut at its quotes. -/
def words (message : String) : List String :=
  (message.toList.splitOn '\'').map String.ofList

theorem words_intercalate {ws : List String} (unquoted : ∀ word ∈ ws, '\'' ∉ word.toList)
    (nonempty : ws ≠ []) : words ("'".intercalate ws) = ws := by
  have hcut : ("'".intercalate ws).toList.splitOn '\'' = ws.map String.toList := by
    rw [String.toList_intercalate]
    exact List.splitOn_intercalate '\'' (by simpa using unquoted) (by simpa using nonempty)
  rw [words, hcut, List.map_map]
  simp [Function.comp_def]

theorem intercalate_words (message : String) : "'".intercalate (words message) = message := by
  apply String.toList_inj.1
  have hwords : (words message).map String.toList = message.toList.splitOn '\'' := by
    simp [words, Function.comp_def]
  rw [String.toList_intercalate, hwords]
  exact List.intercalate_splitOn '\''

namespace Record

/-- The words that the message of a step is joined from. -/
def words : Record → List String
  | .shift op top => ["shift ", toString op, " over ", toString top, ""]
  | .reduce top op => ["reduce ", toString top, " before ", toString op, ""]
  | .close top op => ["match ", toString top, " with ", toString op, ""]
  | .failed .. => []

/-- The step whose message is joined from these words, if there is one. -/
def ofWords? : List String → Option Record
  | ["shift ", op, " over ", top, ""] =>
    return .shift (← Operator.ofText? op) (← Operator.ofText? top)
  | ["reduce ", top, " before ", op, ""] =>
    return .reduce (← Operator.ofText? top) (← Operator.ofText? op)
  | ["match ", top, " with ", op, ""] =>
    return .close (← Operator.ofText? top) (← Operator.ofText? op)
  | _ => none

/-- The step that a line tells of, if it tells of one. -/
def ofLine? : String × String → Option Record
  | ("trace", message) => ofWords? (Log.words message)
  | _ => none

variable {r : Record}

theorem ofWords?_words (step : r.level = .trace) : ofWords? r.words = some r := by
  cases r with
  | shift op top | reduce top op | close top op => simp [words, ofWords?, Operator.ofText?_toString]
  | failed => cases step

theorem words_of_ofWords? {ws : List String} (h : ofWords? ws = some r) :
    r.level = .trace ∧ r.words = ws := by
  unfold ofWords? at h
  split at h
  case h_4 => cases h
  all_goals
    simp only [Option.pure_def, Option.bind_eq_bind, Option.bind_eq_some_iff,
      Operator.ofText?_eq_some_iff] at h
    obtain ⟨_, rfl, _, rfl, ⟨⟩⟩ := h
    exact ⟨rfl, rfl⟩

/-- The message of a step is its words, with quotes between them. -/
theorem message_eq_intercalate (step : r.level = .trace) :
    r.message = "'".intercalate r.words := by
  apply String.toList_inj.1
  cases r with
  | shift op top =>
      show ("shift '" ++ toString op ++ "' over '" ++ toString top ++ "'").toList = _
      simp [words]
  | reduce top op =>
      show ("reduce '" ++ toString top ++ "' before '" ++ toString op ++ "'").toList = _
      simp [words]
  | close top op =>
      show ("match '" ++ toString top ++ "' with '" ++ toString op ++ "'").toList = _
      simp [words]
  | failed => cases step

/-- Cutting the message of a step at its quotes gives back its words. -/
theorem words_message (step : r.level = .trace) : Log.words r.message = r.words := by
  rw [message_eq_intercalate step]
  cases r with
  | shift op top | reduce top op | close top op =>
      exact words_intercalate (by simp [words, Operator.quote_notMem_toString]) (by simp [words])
  | failed => cases step

theorem line_of_trace (step : r.level = .trace) : r.line = ("trace", r.message) := by
  rw [line, step, Level.name]

/-- **A step is determined by its line**, and every line that is read as a step is the line of that
step. -/
theorem ofLine?_eq_some_iff {line : String × String} :
    ofLine? line = some r ↔ r.level = .trace ∧ r.line = line := by
  constructor
  · intro h
    unfold ofLine? at h
    split at h
    · obtain ⟨step, hwords⟩ := words_of_ofWords? h
      refine ⟨step, ?_⟩
      rw [line_of_trace step, message_eq_intercalate step, hwords, intercalate_words]
    · cases h
  · rintro ⟨step, rfl⟩
    rw [line_of_trace step, ofLine?, words_message step, ofWords?_words step]

end Record

/-! ## The lines of a log -/

/-- The steps that the lines of a log tell of, if each tells of one. -/
def readBack? (lines : List (String × String)) : Option (List Record) :=
  lines.mapM Record.ofLine?

theorem readBack?_eq_some_iff {lines : List (String × String)} {records : List Record} :
    readBack? lines = some records ↔
      (∀ r ∈ records, r.level = .trace) ∧ records.map Record.line = lines := by
  unfold readBack?
  induction lines generalizing records with
  | nil => cases records <;> simp
  | cons line lines ih =>
      simp only [List.mapM_cons, Option.pure_def, Option.bind_eq_bind, Option.bind_eq_some_iff,
        Record.ofLine?_eq_some_iff, ih]
      constructor
      · rintro ⟨r, ⟨step, rfl⟩, rs, ⟨steps, rfl⟩, ⟨⟩⟩
        exact ⟨List.forall_mem_cons.2 ⟨step, steps⟩, rfl⟩
      · rintro ⟨steps, hlines⟩
        obtain ⟨r, rs, rfl, rfl, rfl⟩ := List.map_eq_cons_iff.1 hlines
        obtain ⟨step, steps⟩ := List.forall_mem_cons.1 steps
        exact ⟨r, ⟨step, rfl⟩, rs, ⟨steps, rfl⟩, rfl⟩

/-- Lines that are read back are lines of steps. -/
theorem level_of_readBack? {lines : List (String × String)} {records : List Record}
    (h : readBack? lines = some records) : ∀ line ∈ lines, line.1 = "trace" := by
  obtain ⟨steps, rfl⟩ := readBack?_eq_some_iff.1 h
  intro line hline
  obtain ⟨r, hr, rfl⟩ := List.mem_map.1 hline
  rw [Record.line_of_trace (steps r hr)]

end ReversePolish.Log
