import ReversePolish.Conversion
import ReversePolish.Conversion.Rescan
import ReversePolish.Conversion.Trajectory
import ReversePolish.Proofs.Scanning
import ReversePolish.Proofs.Step

/-!
# The pending token

**A conversion that holds a token back does what one does that reads every token anew**
(`conversion_rescans`).  In every state the upcoming token is the one that is read at the cursor,
whether it is pending or not (`Machine.AtText`).  A move keeps this (`Machine.Move.atText`): when an
operator is emitted, the cursor stays where it is and the token that was read there stays pending,
and after any other move no token is pending.  A step looks at nothing but the stack, the cursor and
the upcoming token, so it is the step of a machine that has no token in hand
(`Machine.AtText.step_eq`).

A cursor is no more than a position: reading at a position of a text leads to a position of the same
text (`Cursor.next_ofPosition`).
-/

namespace ReversePolish

/-! ## Cursors and positions -/

/-- Reading at a position leads to a position of the same text. -/
theorem Cursor.next_ofPosition (text : String) (position : Nat) :
    (ofPosition text position).next.2 =
      ofPosition text (ofPosition text position).next.2.position := by
  rcases blank_or_token (text.toList.drop position) with
    blank | ⟨gap, t, rest, blank, writable, longest, hrest⟩
  · rw [ofPosition, next_of_blank blank]
    have hend : text.toList.drop (position + (text.toList.drop position).length + 1) = [] := by
      rw [List.drop_eq_nil_iff, List.length_drop]
      omega
    rw [ofPosition, hend]
  · have hbehind : text.toList.drop (position + gap.length + t.text.length) = rest := by
      rw [Nat.add_assoc, ← List.drop_drop, hrest, ← List.length_append]
      exact List.drop_left
    rw [ofPosition, hrest, next_of_token blank writable longest, ofPosition, hbehind]

/-! ## The states of a conversion -/

namespace Machine

variable {accepts : Validator} {text : String} {m m' : Machine}

/-- What holds of the states of a conversion of the text: the cursor is at a position of the text,
the upcoming token is the one that is read there, and only an operator is ever pending. -/
structure AtText (text : String) (m : Machine) : Prop where
  cursor_eq : m.cursor = .ofPosition text m.cursor.position
  upcoming_eq : m.upcoming = m.cursor.next
  pending_operator : ∀ p, m.pending = some p → ∃ op, p.1 = .operator op

lemma atText_start (text : String) : AtText text (start text) :=
  ⟨rfl, rfl, nofun⟩

/-- The place behind the upcoming token is at a position of the text. -/
lemma AtText.upcoming_cursor (h : AtText text m) :
    m.upcoming.2 = .ofPosition text m.upcoming.2.position := by
  rw [h.upcoming_eq, h.cursor_eq]
  exact Cursor.next_ofPosition text m.cursor.position

/-- **A move keeps what is pending in step with the cursor.** -/
theorem Move.atText {event : Event} (h : Move accepts m event m') (hm : AtText text m) :
    AtText text m' := by
  have hbehind := hm.upcoming_cursor
  cases h with
  | operand | shift | close => exact ⟨hbehind, rfl, nofun⟩
  | reduce stack token precedence =>
      refine ⟨hm.cursor_eq, hm.upcoming_eq, ?_⟩
      rintro p ⟨⟩
      exact ⟨_, token⟩

lemma atText_of_mem_visited :
    ∀ a ∈ (start text).visited accepts, AtText text a :=
  forall_mem_visited (atText_start text) fun _ _ _ hstep ha => (move_of_step hstep).atText ha

/-! ## Reading anew -/

/-- A step does what it would do if no token were pending. -/
lemma AtText.step_eq (h : AtText text m) :
    m.step accepts = step accepts ⟨m.stack, m.cursor, none⟩ := by
  have hsame : m.upcoming = upcoming ⟨m.stack, m.cursor, none⟩ := h.upcoming_eq
  rw [step, step, hsame]

/-- **A run does what it would do if every token were read anew.** -/
theorem AtText.run_eq_rescan (h : AtText text m) :
    m.run accepts = rescan accepts m.stack m.cursor := by
  induction m using run.induct accepts with
  | case1 m hstep =>
      rw [run_of_halt hstep, rescan_eq, ← h.step_eq, hstep]
  | case2 m fault hstep =>
      rw [run_of_fail hstep, rescan_eq, ← h.step_eq, hstep]
  | case3 m event m' hstep ih =>
      rw [run_of_next hstep, rescan_eq, ← h.step_eq, hstep, ih ((move_of_step hstep).atText h)]

end Machine

/-- **The pending token changes nothing.**  The conversion that reads every token anew, from the
position up to which tokens have been used, has the same run, and so the same answer, the same names
asked about and the same log.  Whenever a token is pending, it is an operator, and it is what would
be read at that position. -/
theorem conversion_rescans (accepts : Validator) (text : String) :
    conversion accepts text = rescan accepts [.endOfInput] (.ofPosition text 0) ∧
    ∀ m ∈ (Machine.start text).visited accepts, ∀ p, m.pending = some p →
      (∃ op, p.1 = .operator op) ∧ p = (Cursor.ofPosition text m.cursor.position).next := by
  refine ⟨(Machine.atText_start text).run_eq_rescan, fun m hm p hp => ?_⟩
  have htext := Machine.atText_of_mem_visited m hm
  refine ⟨htext.pending_operator p hp, ?_⟩
  have hupcoming : m.upcoming = p := by rw [Machine.upcoming, hp]
  rw [← htext.cursor_eq, ← htext.upcoming_eq, hupcoming]

/-- A disjunction that is pending while two operators are emitted before it. -/
theorem conversion_rescans_chain :
    (∃ m ∈ (Machine.start "a&!b|c").visited acceptAll, m.stack = [.endOfInput] ∧
      m.pending = some (.operator .or, ⟨5, ['c']⟩) ∧
      (.operator .or, ⟨5, ['c']⟩) = (Cursor.ofPosition "a&!b|c" m.cursor.position).next) ∧
    rescan acceptAll [.endOfInput] (.ofPosition "a&!b|c" 0) = conversion acceptAll "a&!b|c" := by
  have hm : ⟨[.endOfInput], ⟨4, ['|', 'c']⟩, some (.operator .or, ⟨5, ['c']⟩)⟩ ∈
      (Machine.start "a&!b|c").visited acceptAll := by
    decide +kernel
  obtain ⟨hrun, hpending⟩ := conversion_rescans acceptAll "a&!b|c"
  exact ⟨⟨_, hm, rfl, rfl, (hpending _ hm _ rfl).2⟩, hrun.symm⟩

end ReversePolish
