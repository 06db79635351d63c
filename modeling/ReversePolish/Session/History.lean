import ReversePolish.Conversion.FirstFault
import ReversePolish.Session

/-!
# The history of a session

What a session answers can be told from the requests it has had, without following its state: the
validator in use is the one that was set last, and the names noted are those of the requests since
then.  A `History` is a list of requests, and `Request.answerAfter` tells from it what is answered
to the next one.

* `History.validator?` — the validator that was set last, unless the session was started afresh
  since.
* `History.since` — the requests since the validator was set, or since the fresh start.
* `Request.names` — the names that one request asks about, read off the tokens of its expression.
-/

namespace ReversePolish

namespace Request

/-- What a request puts into use: a validator, or none if it starts the session afresh.  Other
requests leave in use what there is. -/
def sets? : Request → Option (Option Validator)
  | .new => some none
  | .withValidator accepts => some (some accepts)
  | .convert _ | .ask _ | .asked | .describe => none

/-- The names that a request asks a validator about. -/
def names (accepts : Validator) : Request → List String
  | .convert expression => (upToFault accepts (tokensOf expression)).filterMap Token.name?
  | .ask name => [name]
  | .new | .withValidator _ | .asked | .describe => []

end Request

/-- The requests that a session has had, first to last. -/
abbrev History := List Request

namespace History

/-- The validator that was set last, if none of the requests behind it starts afresh. -/
def validator? (before : History) : Option Validator :=
  (before.filterMap Request.sets?).getLast?.join

/-- The requests behind the last one that put something into use. -/
def since (before : History) : List Request :=
  (before.reverse.takeWhile fun r => r.sets?.isNone).reverse

/-- The names asked about since the validator was set, if one was set. -/
def noted? (before : History) : Option (List String) :=
  before.validator?.map fun accepts => before.since.flatMap (Request.names accepts)

theorem validator?_concat (before : History) (r : Request) :
    validator? (before ++ [r]) = r.sets?.getD before.validator? := by
  cases h : r.sets? <;> simp [validator?, h]

theorem since_concat (before : History) (r : Request) :
    since (before ++ [r]) = if r.sets?.isNone then before.since ++ [r] else [] := by
  cases h : r.sets? <;> simp [since, h]

end History

/-- The answer to a request, told from the requests before it. -/
def Request.answerAfter (before : History) : Request → Answer
  | .new | .withValidator _ => .done
  | .convert expression => .converted (convertWith (before.validator?.getD acceptAll) expression)
  | .ask name => .accepted (before.validator?.getD acceptAll name)
  | .asked => .asked before.noted?
  | .describe => .description Session.description

/-- The session after a sequence of requests. -/
def Session.afterAll (s : Session) (rs : List Request) : Session :=
  rs.foldl (fun s r => (s.serve r).2) s

/-- A request is answered by the session that those before it have left. -/
theorem Session.serveAll_eq_mapIdx (s : Session) (rs : List Request) :
    s.serveAll rs = rs.mapIdx fun i r => ((s.afterAll (rs.take i)).serve r).1 := by
  induction rs generalizing s with
  | nil => rfl
  | cons r rs ih => simp only [serveAll, ih, List.mapIdx_cons, List.take_succ_cons]; rfl

end ReversePolish
