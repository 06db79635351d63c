import ReversePolish.Proofs.FirstFault
import ReversePolish.Proofs.Scanning

/-!
# Messages of failed conversions

**The message of a failed conversion determines its report** (`convertWith_message_inj`), although
nothing is quoted in it: a name may hold quotes and commas, and the expression any text.  A message
is a lead, which depends on the fault alone, and the expression (`Fault.message_report`).  Where the
lead ends can be told from the message: the operator in it from its first character, and a name
from the first blank behind it, because no blank stands in a name (`Fault.lead_append_inj`).

Names with blanks are never reported, and with them the message would be ambiguous.
-/

namespace ReversePolish

/-! ## Leads -/

/-- What the message of a fault says before the expression. -/
def Fault.lead : Fault → String
  | .rejected name => "condition not recognized: '" ++ name ++ "', expr: "
  | .unmatched op => "invalid syntax, no matching operator for '" ++ toString op ++ "', expr: "
  | .countMismatch => "invalid syntax, mismatch between the number of operators and operands, expr: "

@[simp] lemma Fault.lead_rejected (name : String) :
    (rejected name).lead = "condition not recognized: '" ++ name ++ "', expr: " := rfl

@[simp] lemma Fault.lead_unmatched (op : Operator) : (unmatched op).lead =
    "invalid syntax, no matching operator for '" ++ toString op ++ "', expr: " := rfl

@[simp] lemma Fault.lead_countMismatch : countMismatch.lead =
    "invalid syntax, mismatch between the number of operators and operands, expr: " := rfl

lemma Fault.message_report (fault : Fault) (expression : String) :
    (fault.report expression).message = fault.lead ++ expression := by
  cases fault <;> rfl

/-- Two texts without blanks, each in front of a space, are the same if all is the same. -/
lemma append_space_inj {u u' v v' : String} (hu : ∀ c ∈ u.toList, isBlank c = false)
    (hu' : ∀ c ∈ u'.toList, isBlank c = false) (h : u ++ " " ++ v = u' ++ " " ++ v') :
    u = u' ∧ v = v' := by
  have htake : ∀ w x : String, (∀ c ∈ w.toList, isBlank c = false) →
      (w ++ " " ++ x).toList.takeWhile (fun c => !isBlank c) = w.toList := by
    intro w x hw
    rw [String.append_assoc, String.toList_append]
    refine (takeWhile_dropWhile_append (fun c hc => by rw [hw c hc]; rfl) ?_).1
    rw [String.toList_append]
    rintro c ⟨⟩
    decide
  have hword : u = u' := by
    rw [← String.toList_inj, ← htake u v hu, h, htake u' v' hu']
  rw [hword, String.append_right_inj] at h
  exact ⟨hword, h⟩

/-- An operator in front of a text is told by its first character. -/
lemma Operator.toString_append_inj {op op' : Operator} {s t : String}
    (h : toString op ++ s = toString op' ++ t) : op = op' ∧ s = t := by
  have hhead : ∀ (o : Operator) (x : String),
      (toString o ++ x).toList.head? = (toString o).toList.head? := by
    intro o x
    rw [String.toList_append, List.head?_append]
    cases o <;> rfl
  have hheads : (toString op).toList.head? = (toString op').toList.head? := by
    rw [← hhead op s, h, hhead op' t]
  obtain rfl : op = op' := by
    revert hheads
    cases op <;> cases op' <;> decide
  exact ⟨rfl, (String.append_right_inj _).1 h⟩

/-- A name in front of the end of a lead is told by the blank behind it. -/
lemma IsName.append_inj {n n' s t : String} (hn : IsName n) (hn' : IsName n')
    (h : n ++ "', expr: " ++ s = n' ++ "', expr: " ++ t) : n = n' ∧ s = t := by
  have hsplit : ∀ w x : String, w ++ "', expr: " ++ x = w ++ "'," ++ " " ++ ("expr: " ++ x) := by
    intro w x
    show w ++ ("'," ++ (" " ++ "expr: ")) ++ x = w ++ "'," ++ " " ++ ("expr: " ++ x)
    simp only [String.append_assoc]
  have hword : ∀ w : String, IsName w → ∀ c ∈ (w ++ "',").toList, isBlank c = false := by
    intro w hw c hc
    rw [String.toList_append, List.mem_append] at hc
    rcases hc with hc | hc
    · exact Token.isBlank_of_mem_text (t := .operand w) hw c hc
    · have hends : c = '\'' ∨ c = ',' := by simpa using hc
      rcases hends with rfl | rfl <;> decide
  rw [hsplit n s, hsplit n' t] at h
  obtain ⟨hnames, hexpressions⟩ := append_space_inj (hword n hn) (hword n' hn') h
  exact ⟨(String.append_left_inj _).1 hnames, (String.append_right_inj _).1 hexpressions⟩

/-- The character behind `invalid syntax, `, and the one at its place in the other lead, tell what
kind of fault the message is about. -/
lemma Fault.toList_getElem?_lead_append (fault : Fault) (s : String) :
    (fault.lead ++ s).toList[16]? = some (match fault with
      | .rejected _ => 'c'
      | .unmatched _ => 'n'
      | .countMismatch => 'm') := by
  cases fault <;> simp

/-- **The lead of a message can be told from the message**, if it is about a proper name or none. -/
theorem Fault.lead_append_inj {f g : Fault} {s t : String} (hf : ∀ n, f = .rejected n → IsName n)
    (hg : ∀ n, g = .rejected n → IsName n) (h : f.lead ++ s = g.lead ++ t) : f = g ∧ s = t := by
  have hkind := congrArg (fun message : String => message.toList[16]?) h
  simp only [toList_getElem?_lead_append] at hkind
  cases f with
  | rejected n =>
      cases g with
      | rejected n' =>
          simp only [lead_rejected, String.append_assoc, String.append_right_inj] at h
          rw [← String.append_assoc, ← String.append_assoc] at h
          obtain ⟨rfl, hst⟩ := (hf n rfl).append_inj (hg n' rfl) h
          exact ⟨rfl, hst⟩
      | unmatched | countMismatch => simp at hkind
  | unmatched op =>
      cases g with
      | unmatched op' =>
          simp only [lead_unmatched, String.append_assoc, String.append_right_inj] at h
          obtain ⟨rfl, hst⟩ := Operator.toString_append_inj h
          exact ⟨rfl, (String.append_right_inj _).1 hst⟩
      | rejected | countMismatch => simp at hkind
  | countMismatch =>
      cases g with
      | countMismatch => exact ⟨rfl, (String.append_right_inj _).1 h⟩
      | rejected | unmatched => simp at hkind

/-! ## The reports of conversions -/

/-- A rejected name stands in the text, so it is a proper one. -/
lemma isName_of_finalFault? {accepts : Validator} {text name : String}
    (h : (conversion accepts text).finalFault? = some (.rejected name)) : IsName name := by
  have hfault := fault_of_finalFault? h nofun
  cases fault_conversion_eq_some_iff.1 hfault with
  | @rejected _ before after tokens earlier refused =>
      have hmem : Token.operand name ∈ tokensOf text :=
        tokens ▸ List.mem_append_right _ List.mem_cons_self
      exact isWritable_of_mem_tokensOf hmem

/-- **The message of a failed conversion determines its report**: its kind, the reason and the
operator or the operand, and the expression. -/
theorem convertWith_message_inj {v w : Validator} {s t : String} {e e' : ConversionError}
    (h : convertWith v s = .error e) (h' : convertWith w t = .error e') :
    e.message = e'.message ↔ e = e' := by
  obtain ⟨fault, hfault, rfl⟩ := convertWith_eq_error_iff.1 h
  obtain ⟨fault', hfault', rfl⟩ := convertWith_eq_error_iff.1 h'
  constructor
  · intro hmessage
    rw [Fault.message_report, Fault.message_report] at hmessage
    obtain ⟨rfl, rfl⟩ := Fault.lead_append_inj
      (fun n hn => isName_of_finalFault? (hn ▸ hfault))
      (fun n hn => isName_of_finalFault? (hn ▸ hfault')) hmessage
    rfl
  · exact congrArg ConversionError.message

/-- A text that looks like the end of a lead itself, reported by two validators. -/
theorem convertWith_message_inj_quotes :
    convertWith (· != "x") "x', expr: x" =
      .error (.operandNotRecognized "x" "x', expr: x") ∧
    convertWith (· == "x") "x', expr: x" =
      .error (.operandNotRecognized "x'," "x', expr: x") ∧
    (ConversionError.operandNotRecognized "x" "x', expr: x").message ≠
      (ConversionError.operandNotRecognized "x'," "x', expr: x").message := by
  have h : convertWith (· != "x") "x', expr: x" =
      .error (.operandNotRecognized "x" "x', expr: x") := by
    decide +kernel
  have h' : convertWith (· == "x") "x', expr: x" =
      .error (.operandNotRecognized "x'," "x', expr: x") := by
    decide +kernel
  have hne : ConversionError.operandNotRecognized "x" "x', expr: x" ≠
      .operandNotRecognized "x'," "x', expr: x" := by
    decide
  exact ⟨h, h', fun hmessage => hne ((convertWith_message_inj h h').1 hmessage)⟩

/-- Reports that no conversion gives can have the message of one that it gives. -/
example : (ConversionError.operandNotRecognized "x', expr: x" "x").message =
    (ConversionError.operandNotRecognized "x" "x', expr: x").message := by
  decide +kernel

end ReversePolish
