import ReversePolish.Conversion.Run

/-!
# The states of a run

`Machine.visited` lists the states that a conversion goes through, the first one and the last one
included.  A state with operators on its stack makes a step, or fails in one; a state without a
pending token reads one from its cursor when it does.
-/

namespace ReversePolish.Machine

/-- The states of the run, first to last. -/
def visited (accepts : Validator) (m : Machine) : List Machine :=
  m ::
    match _h : m.step accepts with
    | .next _ m' => m'.visited accepts
    | .halt | .fail _ => []
termination_by m.weight
decreasing_by exact weight_lt_of_step ‹_›

/-- Whether the machine makes a step. -/
def isActive (m : Machine) : Bool :=
  !m.stack.isEmpty

/-- Whether the machine reads a token in its step. -/
def isReading (m : Machine) : Bool :=
  m.isActive && m.pending.isNone

/-- The number of steps of the run, a failing one included. -/
def stepCount (accepts : Validator) (m : Machine) : Nat :=
  (m.visited accepts).countP isActive

/-- The cursors from which tokens are read, first to last. -/
def readings (accepts : Validator) (m : Machine) : List Cursor :=
  ((m.visited accepts).filter isReading).map cursor

variable {accepts : Validator} {m m' : Machine}

theorem visited_of_next {event : Event} (h : m.step accepts = .next event m') :
    m.visited accepts = m :: m'.visited accepts := by
  rw [visited]; split <;> simp_all

theorem visited_of_halt (h : m.step accepts = .halt) : m.visited accepts = [m] := by
  rw [visited]; split <;> simp_all

theorem visited_of_fail {fault : Fault} (h : m.step accepts = .fail fault) :
    m.visited accepts = [m] := by
  rw [visited]; split <;> simp_all

/-- What every step keeps holds of all states of a run. -/
theorem forall_mem_visited {P : Machine → Prop} (start : P m)
    (keep : ∀ a event b, a.step accepts = .next event b → P a → P b) :
    ∀ a ∈ m.visited accepts, P a := by
  induction m using run.induct accepts with
  | case1 m h =>
    intro a ha
    rw [visited_of_halt h, List.mem_singleton] at ha
    exact ha ▸ start
  | case2 m fault h =>
    intro a ha
    rw [visited_of_fail h, List.mem_singleton] at ha
    exact ha ▸ start
  | case3 m event m' h ih =>
    intro a ha
    rw [visited_of_next h, List.mem_cons] at ha
    rcases ha with rfl | ha
    · exact start
    · exact ih (keep m event m' h start) a ha

/-- A state of a run is the first one, or a step leads to it from another one. -/
theorem exists_step_of_mem_visited {a : Machine} (h : a ∈ m.visited accepts) :
    a = m ∨ ∃ b ∈ m.visited accepts, ∃ event, b.step accepts = .next event a := by
  induction m using run.induct accepts with
  | case1 m hstep =>
    rw [visited_of_halt hstep, List.mem_singleton] at h
    exact .inl h
  | case2 m fault hstep =>
    rw [visited_of_fail hstep, List.mem_singleton] at h
    exact .inl h
  | case3 m event m' hstep ih =>
    rw [visited_of_next hstep] at h ⊢
    rcases List.mem_cons.1 h with rfl | h
    · exact .inl rfl
    · rcases ih h with rfl | ⟨b, hb, hevent⟩
      · exact .inr ⟨m, List.mem_cons_self, event, hstep⟩
      · exact .inr ⟨b, List.mem_cons_of_mem _ hb, hevent⟩

end ReversePolish.Machine
