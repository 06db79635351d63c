import ReversePolish.Proofs.Reading
import ReversePolish.Session.History

/-!
# Sessions leave no traces

**What a session answers depends on the requests before only as far as they set its validator and
ask it about names** (`serveAll_new_eq_mapIdx`).  A conversion gives what `convertWith` gives for
the validator in use, whether the ones before it succeeded or failed.  The names that are noted are
those of the requests since the validator was set, one request after the other, and how far each of
them has asked is told by the tokens of its own expression.

`Session.ofHistory` is the session that a history describes, and what a request does to it is what
the request adds to the history (`Session.serve_ofHistory`).
-/

namespace ReversePolish

/-- The session that is described by the requests it has had. -/
def Session.ofHistory (before : History) : Session where
  accepts := before.validator?.getD acceptAll
  asked := before.noted?

namespace Session

variable {s : Session} {r : Request} {before : History}

/-! ## What a request leaves behind -/

lemma note_nil (s : Session) : s.note [] = s := by
  obtain ⟨accepts, asked⟩ := s
  cases asked with
  | none => rfl
  | some names => simp only [note, Option.map_some, List.append_nil]

/-- A request that puts nothing into use leaves behind the names that it has asked about. -/
lemma serve_of_sets?_none (h : r.sets? = none) : (s.serve r).2 = s.note (r.names s.accepts) := by
  cases r with
  | new | withValidator accepts => cases h
  | convert expression => exact congrArg s.note (asked_conversion s.accepts expression)
  | ask name => rfl
  | asked | describe => exact s.note_nil.symm

/-- A request that puts something into use leaves behind nothing of what was before. -/
lemma serve_of_sets?_some {accepts? : Option Validator} (h : r.sets? = some accepts?) :
    (s.serve r).2 =
      { accepts := accepts?.getD acceptAll, asked := accepts?.map fun _ => [] } := by
  cases r with
  | new | withValidator accepts => cases h; rfl
  | convert expression | ask name | asked | describe => cases h

/-! ## What a request adds to the history -/

lemma ofHistory_concat_of_sets?_none (h : r.sets? = none) :
    ofHistory (before ++ [r]) = (ofHistory before).note (r.names (ofHistory before).accepts) := by
  simp only [ofHistory, note, History.noted?, History.validator?_concat, History.since_concat, h,
    Option.getD_none, Option.isNone_none, if_true]
  cases before.validator? with
  | none => rfl
  | some accepts =>
      simp only [Option.map_some, Option.getD_some, List.flatMap_append, List.flatMap_singleton]

lemma ofHistory_concat_of_sets?_some {accepts? : Option Validator} (h : r.sets? = some accepts?) :
    ofHistory (before ++ [r]) =
      { accepts := accepts?.getD acceptAll, asked := accepts?.map fun _ => [] } := by
  simp only [ofHistory, History.noted?, History.validator?_concat, History.since_concat, h,
    Option.getD_some, Option.isNone_some, Bool.false_eq_true, if_false, List.flatMap_nil]

/-- **A request is answered from the history, and adds itself to it.** -/
theorem serve_ofHistory (before : History) (r : Request) :
    (ofHistory before).serve r = (r.answerAfter before, ofHistory (before ++ [r])) := by
  refine Prod.ext ?_ ?_
  · cases r <;> rfl
  · cases h : r.sets? with
    | none => rw [serve_of_sets?_none h, ofHistory_concat_of_sets?_none h]
    | some accepts? => rw [serve_of_sets?_some h, ofHistory_concat_of_sets?_some h]

/-- After any requests a session is the one that its history describes. -/
theorem afterAll_ofHistory (before : History) (rs : List Request) :
    (ofHistory before).afterAll rs = ofHistory (before ++ rs) := by
  induction rs generalizing before with
  | nil => rw [List.append_nil]; rfl
  | cons r rs ih =>
      rw [afterAll, List.foldl_cons, serve_ofHistory, ← afterAll, ih, List.append_assoc]
      rfl

/-- **Sessions leak no state.**  In any sequence of requests to a new session, each one is answered
as the requests before it tell: a conversion like `convertWith` with the validator that was set
last, or with the one that accepts every name; a request for the names asked about with those of
the requests since that validator was set, in their order, or with nothing if the session was
started afresh. -/
theorem serveAll_new_eq_mapIdx (requests : List Request) :
    new.serveAll requests =
      requests.mapIdx fun i request => request.answerAfter (requests.take i) := by
  have hnew : new = ofHistory [] := rfl
  rw [serveAll_eq_mapIdx]
  refine congrArg requests.mapIdx (funext fun i => funext fun request => ?_)
  rw [hnew, afterAll_ofHistory, serve_ofHistory]
  rfl

/-- A rejection ends what is asked about, and so does a parenthesis too many; a fresh start ends
the note, and another validator begins an empty one. -/
example :
    new.serveAll [.withValidator (· != "b"), .convert "a & b | c", .ask "b", .convert "a) & c",
        .asked, .new, .convert "b", .asked, .withValidator (· != "a"), .asked] =
      [.done, .converted (.error (.operandNotRecognized "b" "a & b | c")), .accepted false,
        .converted (.error (.invalidSyntax
          ⟨"no matching operator for", some .closeParen, "a) & c"⟩)),
        .asked (some ["a", "b", "b", "a"]), .done, .converted (.ok { tokens := [.operand "b"] }),
        .asked none, .done, .asked (some [])] := by
  decide +kernel

end Session

end ReversePolish
