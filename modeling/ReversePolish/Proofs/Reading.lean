import ReversePolish.Proofs.FirstFault

/-!
# How far a conversion reads

**A conversion reads its tokens one after the other, up to the first one at fault**
(`conversion_read`).  An operator may be offered to the stack many times, but it is used up once,
when it is stacked or closes the top; the events of a run therefore use up the tokens in order
(`TokenRun.read_eq`).

* `faultless_or_atFault` — either no token is at fault, or there is a first one.
* **`conversion_asks`** — the names asked about are those of the operands that were read.
-/

namespace ReversePolish

variable {accepts : Validator}

/-! ## The tokens that a run reads -/

/-- The token that an event uses up, if it uses one up.  An operator that another one has to be
emitted for is still to come. -/
def Event.used? : Event → Option Token
  | .operand name => some (.operand name)
  | .shift op _ => some (.operator op)
  | .close _ op => some (.operator op)
  | .reduce .. => none

/-- The token at which a fault ends a run.  A count that does not come out is not found at a
token. -/
def Fault.token? : Fault → Option Token
  | .rejected name => some (.operand name)
  | .unmatched op => some (.operator op)
  | .countMismatch => none

/-- A run ends at the token that is at fault. -/
lemma AtFault.token?_eq {before : List Token} {t : Token} {fault : Fault}
    (h : AtFault accepts before t fault) : fault.token? = some t := by
  cases h <;> rfl

namespace Run

/-- The tokens that are used up, first to last. -/
def used (r : Run) : List Token :=
  r.events.filterMap Event.used?

/-- The tokens that are read, first to last: those that are used up, and the one that is not
because the run ends at it. -/
def read (r : Run) : List Token :=
  r.used ++ (r.fault.bind Fault.token?).toList

/-- The names asked about are those of the tokens that are read. -/
lemma asked_eq_filterMap_read (r : Run) : r.asked = r.read.filterMap Token.name? := by
  have hevents : r.events.filterMap Event.asked? = r.used.filterMap Token.name? := by
    rw [used, List.filterMap_filterMap]
    congr 1
    funext event
    cases event <;> rfl
  have hfault : (r.fault.bind Fault.asked?).toList =
      (r.fault.bind Fault.token?).toList.filterMap Token.name? := by
    rcases r.fault with - | fault
    · rfl
    · cases fault <;> rfl
  rw [asked, read, List.filterMap_append, hevents, hfault]

end Run

/-- A run reads its tokens from the first one on. -/
lemma TokenRun.head?_read {stack : List Operator} {ts : List Token} {r : Run}
    (h : TokenRun accepts stack ts r) : r.read.head? = ts.head? := by
  induction h with
  | finish | operand | rejected | shift | close | unopened | unclosed => rfl
  | reduce precedence rest ih => exact ih

/-! ## Up to the first token at fault -/

/-- **A run reads up to the first token at fault**, when the opening parentheses on its stack are
those that are open in the tokens before it. -/
theorem TokenRun.read_eq {stack : List Operator} {ts : List Token} {r : Run}
    (h : TokenRun accepts stack ts r) :
    ∀ before : List Token, OpenOn stack before → r.read = upToFaultAfter accepts before ts := by
  induction h with
  | finish => exact fun _ _ => rfl
  | operand accepted rest ih =>
      intro before hopen
      rw [upToFaultAfter_of_none (faultAt?_of_accepted accepted), ← ih _ hopen.operand]
      rfl
  | rejected refused =>
      intro before hopen
      exact (upToFaultAfter_of_some (faultAt?_of_refused refused)).symm
  | shift precedence rest ih =>
      intro before hopen
      rw [upToFaultAfter_of_none (faultAt?_of_shift precedence), ← ih _ (hopen.shift precedence)]
      rfl
  | reduce precedence rest ih =>
      intro before hopen
      exact ih before (hopen.reduce precedence)
  | close rest ih =>
      intro before hopen
      rw [upToFaultAfter_of_none hopen.faultAt?_close, ← ih _ hopen.close]
      rfl
  | unopened =>
      intro before hopen
      exact (upToFaultAfter_of_some hopen.faultAt?_unopened).symm
  | unclosed => exact fun _ _ => rfl

/-- **A conversion reads up to the first token at fault**, or up to the end mark. -/
theorem conversion_read (accepts : Validator) (text : String) :
    (conversion accepts text).read = upToFault accepts (tokensOf text ++ [.endMark]) :=
  (tokenRun_conversion accepts text).read_eq [] rfl

/-! ## The place of the first fault -/

/-- **No token is at fault, or there is a first one**, behind tokens of which none is. -/
theorem faultless_or_atFault (accepts : Validator) (ts : List Token) :
    Faultless accepts ts ∨
      ∃ before t after fault, ts = before ++ t :: after ∧ Faultless accepts before ∧
        AtFault accepts before t fault := by
  cases hf : firstFaultAfter? accepts [] ts with
  | none => exact Or.inl (firstFaultAfter?_nil_eq_none_iff.1 hf)
  | some fault =>
      obtain ⟨before, t, after, hfirst⟩ := firstFaultAfter?_nil_eq_some_iff.1 hf
      exact Or.inr ⟨before, t, after, fault, hfirst⟩

/-- If no token is at fault, a conversion reads all of them and the end mark. -/
lemma conversion_read_of_faultless {text : String} (h : Faultless accepts (tokensOf text)) :
    (conversion accepts text).read = tokensOf text ++ [.endMark] := by
  rw [conversion_read, upToFault,
    upToFaultAfter_append [.endMark] (firstFaultAfter?_nil_eq_none_iff.2 h)]
  rfl

/-- A conversion reads the first token at fault and nothing behind it. -/
lemma conversion_read_of_atFault {text : String} {before after : List Token} {t : Token}
    {fault : Fault} (tokens : tokensOf text = before ++ t :: after)
    (earlier : Faultless accepts before) (h : AtFault accepts before t fault) :
    (conversion accepts text).read = before ++ [t] := by
  rw [conversion_read, tokens, List.append_assoc, upToFault,
    upToFaultAfter_append _ (firstFaultAfter?_nil_eq_none_iff.2 earlier), List.nil_append,
    List.cons_append, upToFaultAfter_of_some (faultAt?_eq_some_iff.2 h)]

/-! ## The names asked about -/

/-- If no token is at fault, every operand is asked about. -/
lemma asked_of_faultless {text : String} (h : Faultless accepts (tokensOf text)) :
    (conversion accepts text).asked = (tokensOf text).filterMap Token.name? := by
  rw [Run.asked_eq_filterMap_read, conversion_read_of_faultless h, List.filterMap_append]
  exact List.append_nil _

/-- Up to the first token at fault there is no operand more or less when the end mark follows. -/
lemma names_upToFaultAfter_append_endMark (before ts : List Token) :
    (upToFaultAfter accepts before (ts ++ [.endMark])).filterMap Token.name? =
      (upToFaultAfter accepts before ts).filterMap Token.name? := by
  induction ts generalizing before with
  | nil => rfl
  | cons t ts ih =>
      rw [List.cons_append]
      cases hf : faultAt? accepts before t with
      | some fault => rw [upToFaultAfter_of_some hf, upToFaultAfter_of_some hf]
      | none =>
          rw [upToFaultAfter_of_none hf, upToFaultAfter_of_none hf, List.filterMap_cons, ih,
            ← List.filterMap_cons]

/-- The names asked about, computed from the tokens. -/
theorem asked_conversion (accepts : Validator) (text : String) :
    (conversion accepts text).asked =
      (upToFault accepts (tokensOf text)).filterMap Token.name? := by
  rw [Run.asked_eq_filterMap_read, conversion_read, upToFault, upToFault,
    names_upToFaultAfter_append_endMark]

/-- A run that no token ends has met none at fault. -/
lemma faultless_of_fault_none {text : String} (h : (conversion accepts text).fault = none) :
    Faultless accepts (tokensOf text) := by
  obtain ⟨accepted, matching⟩ := fault_conversion_eq_none_iff.1 h
  exact ⟨accepted, matching.1⟩

/-- **Which names are asked about**: those of the operands up to the first token at fault, that one
included, in their order and as often as they stand there.  A conversion that succeeds, fails by
the count or ends in an open parenthesis has asked about every operand of its text. -/
theorem conversion_asks (accepts : Validator) (text : String) :
    ((Faultless accepts (tokensOf text) ∧
        (conversion accepts text).asked = (tokensOf text).filterMap Token.name?) ∨
      ∃ before t after fault, tokensOf text = before ++ t :: after ∧ Faultless accepts before ∧
        AtFault accepts before t fault ∧
        (conversion accepts text).asked = (before ++ [t]).filterMap Token.name?) ∧
    ((∃ p, convertWith accepts text = .ok p) ∨
        convertWith accepts text = .error (.invalidSyntax
          ⟨"mismatch between the number of operators and operands", none, text⟩) ∨
        convertWith accepts text = .error (.invalidSyntax
          ⟨"no matching operator for", some .endOfInput, text⟩) →
      (conversion accepts text).asked = (tokensOf text).filterMap Token.name?) := by
  constructor
  · rcases faultless_or_atFault accepts (tokensOf text) with
      hless | ⟨before, t, after, fault, tokens, earlier, hfault⟩
    · exact Or.inl ⟨hless, asked_of_faultless hless⟩
    · refine Or.inr ⟨before, t, after, fault, tokens, earlier, hfault, ?_⟩
      rw [Run.asked_eq_filterMap_read, conversion_read_of_atFault tokens earlier hfault]
  · rintro (⟨p, h⟩ | h | h)
    · exact asked_of_faultless (faultless_of_fault_none (convertWith_eq_ok_iff.1 h).1)
    · exact asked_of_faultless
        (faultless_of_fault_none (convertWith_eq_countMismatch_iff.1 h).1)
    · have hreport : convertWith accepts text =
          .error ((Fault.unmatched .endOfInput).report text) := h
      cases fault_conversion_eq_some_iff.1 (fault_of_convertWith hreport nofun) with
      | unclosed earlier more => exact asked_of_faultless earlier

/-- A name that stands twice behind pending operators and is asked about twice. -/
theorem conversion_asks_twice :
    convertWith (· != "c") "a | !a & (b" = .error (.invalidSyntax
      ⟨"no matching operator for", some .endOfInput, "a | !a & (b"⟩) ∧
    (conversion (· != "c") "a | !a & (b").asked = ["a", "a", "b"] := by
  have hunclosed : convertWith (· != "c") "a | !a & (b" = .error (.invalidSyntax
      ⟨"no matching operator for", some .endOfInput, "a | !a & (b"⟩) := by
    decide +kernel
  have hnames : (tokensOf "a | !a & (b").filterMap Token.name? = ["a", "a", "b"] := by
    decide +kernel
  exact ⟨hunclosed,
    ((conversion_asks _ _).2 (Or.inr (Or.inr hunclosed))).trans hnames⟩

end ReversePolish
