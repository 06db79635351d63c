import ReversePolish.Proofs.Tracing

/-!
# Stricter validators

**A stricter validator can only cut a conversion short** (`conversion_of_stricter`): it gives the
same answer, the same report of a malformed expression, or a rejection.  Up to the rejection the
two conversions do the same, because an accepted operand leaves no trace of who accepted it.

`Run.CutShort` says that of two runs.  It is enough to follow the run of the laxer validator: the
stricter one makes the same steps until it rejects an operand (`TokenRun.exists_cutShort`), and
there is only one run of the stricter validator.
-/

namespace ReversePolish

/-- The first run is the second one, or breaks it off by rejecting an operand that is accepted
there. -/
def Run.CutShort (short r : Run) : Prop :=
  short = r ∨ ∃ name, short.fault = some (.rejected name) ∧
    short.events ++ [.operand name] <+: r.events

namespace Run.CutShort

variable {short r : Run}

lemma refl (r : Run) : CutShort r r :=
  Or.inl rfl

lemma after (h : CutShort short r) (event : Event) :
    CutShort (short.after event) (r.after event) := by
  rcases h with rfl | ⟨name, hfault, hevents⟩
  · exact refl _
  · exact Or.inr ⟨name, hfault, List.cons_prefix_cons.2 ⟨rfl, hevents⟩⟩

lemma events_prefix (h : CutShort short r) : short.events <+: r.events := by
  rcases h with rfl | ⟨name, -, hevents⟩
  · exact List.prefix_refl _
  · exact (List.prefix_append _ _).trans hevents

lemma trace_prefix (h : CutShort short r) : short.trace <+: r.trace :=
  h.events_prefix.filterMap _

/-- The rejected name is the last one asked about in the first run, and it is asked about next in
the second. -/
lemma asked_prefix (h : CutShort short r) : short.asked <+: r.asked := by
  rcases h with rfl | ⟨name, hfault, hevents⟩
  · exact List.prefix_refl _
  · have hasked : short.asked = (short.events ++ [Event.operand name]).filterMap Event.asked? := by
      rw [Run.asked, hfault, List.filterMap_append]
      rfl
    rw [hasked]
    exact (hevents.filterMap _).trans (List.prefix_append _ _)

end Run.CutShort

/-- **A stricter validator breaks a run off, or does not change it.** -/
theorem TokenRun.exists_cutShort {v w : Validator}
    (stricter : ∀ name, v name = true → w name = true) {stack : List Operator} {ts : List Token}
    {r : Run} (h : TokenRun w stack ts r) :
    ∃ short, TokenRun v stack ts short ∧ short.CutShort r := by
  induction h with
  | finish => exact ⟨_, .finish, .refl _⟩
  | @operand name stack ts r accepted rest ih =>
      obtain ⟨short, hshort, hcut⟩ := ih
      cases hname : v name with
      | true => exact ⟨_, .operand hname hshort, hcut.after _⟩
      | false =>
          refine ⟨_, .rejected hname, Or.inr ⟨name, rfl, ?_⟩⟩
          exact List.cons_prefix_cons.2 ⟨rfl, List.nil_prefix⟩
  | @rejected name stack ts refused =>
      have hname : v name = false :=
        Bool.eq_false_iff.2 fun h => by rw [stricter name h] at refused; cases refused
      exact ⟨_, .rejected hname, .refl _⟩
  | shift precedence rest ih =>
      obtain ⟨short, hshort, hcut⟩ := ih
      exact ⟨_, .shift precedence hshort, hcut.after _⟩
  | reduce precedence rest ih =>
      obtain ⟨short, hshort, hcut⟩ := ih
      exact ⟨_, .reduce precedence hshort, hcut.after _⟩
  | close rest ih =>
      obtain ⟨short, hshort, hcut⟩ := ih
      exact ⟨_, .close hshort, hcut.after _⟩
  | unopened => exact ⟨_, .unopened, .refl _⟩
  | unclosed => exact ⟨_, .unclosed, .refl _⟩

/-- A stricter validator breaks a conversion off, or does not change it. -/
lemma conversion_cutShort {v w : Validator} (stricter : ∀ name, v name = true → w name = true)
    (text : String) : (conversion v text).CutShort (conversion w text) := by
  obtain ⟨short, hshort, hcut⟩ := (tokenRun_conversion w text).exists_cutShort stricter
  rwa [hshort.unique (tokenRun_conversion v text)] at hcut

/-- A conversion that is not rejected is the one of any laxer validator. -/
lemma conversion_eq_of_stricter {v w : Validator}
    (stricter : ∀ name, v name = true → w name = true) {text : String}
    (h : ∀ name, (conversion v text).fault ≠ some (.rejected name)) :
    conversion w text = conversion v text := by
  rcases conversion_cutShort stricter text with heq | ⟨name, hfault, -⟩
  · exact heq.symm
  · exact absurd hfault (h name)

lemma convertWith_eq_operandNotRecognized_iff {accepts : Validator}
    {text name expression : String} :
    convertWith accepts text = .error (.operandNotRecognized name expression) ↔
      (conversion accepts text).fault = some (.rejected name) ∧ expression = text := by
  constructor
  · intro h
    obtain ⟨fault, hfinal, hreport⟩ := convertWith_eq_error_iff.1 h
    cases fault with
    | rejected n =>
        cases hreport
        exact ⟨fault_of_finalFault? hfinal nofun, rfl⟩
    | unmatched | countMismatch => cases hreport
  · rintro ⟨hfault, rfl⟩
    exact convertWith_of_fault_some hfault

/-- **Conversion is monotone in the validator.**  Where a stricter validator lets a conversion
succeed or fail by its syntax, a laxer one gives the same answer, asks about the same names and
leaves the same log.  Where it rejects an operand, the laxer one has asked about the same names up
to there, and logged the same but for the report of the rejection.  So a validator can turn an
answer into a rejection and change nothing else. -/
theorem conversion_of_stricter {v w : Validator}
    (stricter : ∀ name, v name = true → w name = true) (text : String) :
    ((∃ p, convertWith v text = .ok p) ∨
        (∃ info, convertWith v text = .error (.invalidSyntax info)) →
      convertWith w text = convertWith v text ∧
      (conversion w text).asked = (conversion v text).asked ∧
      (conversion w text).log text = (conversion v text).log text) ∧
    (∀ name expression,
      convertWith v text = .error (.operandNotRecognized name expression) →
      (conversion v text).asked <+: (conversion w text).asked ∧
      ∃ records, (conversion v text).log text = records ++ [.failed (.rejected name) text] ∧
        records <+: (conversion w text).log text) ∧
    (convertWith v text = convert text ∨
      ∃ name, convertWith v text = .error (.operandNotRecognized name text)) := by
  refine ⟨fun h => ?_, fun name expression h => ?_, ?_⟩
  · have hsame : conversion w text = conversion v text := by
      refine conversion_eq_of_stricter stricter fun name hfault => ?_
      rw [convertWith_of_fault_some hfault] at h
      rcases h with ⟨p, h⟩ | ⟨info, h⟩ <;> cases h
    exact ⟨by rw [convertWith, convertWith, hsame], by rw [hsame], by rw [hsame]⟩
  · obtain ⟨hfault, -⟩ := convertWith_eq_operandNotRecognized_iff.1 h
    have hcut := conversion_cutShort stricter text
    refine ⟨hcut.asked_prefix, _, Run.log_of_finalFault?_some ?_, ?_⟩
    · rw [Run.finalFault?, hfault]
    · exact hcut.trace_prefix.trans (List.prefix_append _ _)
  · by_cases h : ∃ name, (conversion v text).fault = some (.rejected name)
    · obtain ⟨name, hfault⟩ := h
      exact Or.inr ⟨name, convertWith_of_fault_some hfault⟩
    · have hsame := conversion_eq_of_stricter (w := acceptAll) (fun _ _ => rfl) (not_exists.1 h)
      exact Or.inl (by rw [convert, convertWith, convertWith, hsame])

/-- A validator that rejects a name in front of a parenthesis too many, and one that does not. -/
theorem conversion_of_stricter_hidden :
    (∀ name, (name != "b") = true → acceptAll name = true) ∧
    convertWith (· != "b") "!a & b)" = .error (.operandNotRecognized "b" "!a & b)") ∧
    (conversion (· != "b") "!a & b)").asked <+: (conversion acceptAll "!a & b)").asked ∧
    (∃ records, (conversion (· != "b") "!a & b)").log "!a & b)" =
        records ++ [.failed (.rejected "b") "!a & b)"] ∧
      records <+: (conversion acceptAll "!a & b)").log "!a & b)") ∧
    (∀ name, (name != "c") = true → acceptAll name = true) ∧
    convertWith (· != "c") "!a & b)" = .error (.invalidSyntax
      ⟨"no matching operator for", some .closeParen, "!a & b)"⟩) ∧
    convertWith acceptAll "!a & b)" = convertWith (· != "c") "!a & b)" := by
  have hb : ∀ name, (name != "b") = true → acceptAll name = true := fun _ _ => rfl
  have hc : ∀ name, (name != "c") = true → acceptAll name = true := fun _ _ => rfl
  have hrejected : convertWith (· != "b") "!a & b)" =
      .error (.operandNotRecognized "b" "!a & b)") := by
    decide +kernel
  have hunopened : convertWith (· != "c") "!a & b)" = .error (.invalidSyntax
      ⟨"no matching operator for", some .closeParen, "!a & b)"⟩) := by
    decide +kernel
  obtain ⟨-, hcut, -⟩ := conversion_of_stricter hb "!a & b)"
  obtain ⟨hsame, -, -⟩ := conversion_of_stricter hc "!a & b)"
  obtain ⟨hasked, hlog⟩ := hcut _ _ hrejected
  exact ⟨hb, hrejected, hasked, hlog, hc, hunopened, (hsame (Or.inr ⟨_, hunopened⟩)).1⟩

end ReversePolish
