import ReversePolish.Conversion

/-!
# Sessions

A session serves requests one after another with one validator.  It notes the names that the
validator is asked about, from the moment it is set; the validator that accepts every name is not
asked in earnest, and for it nothing is noted.

The only thing that a request leaves behind is that list of names, and the validator when it is
replaced.  A conversion in a session therefore gives what `convertWith` gives.
-/

namespace ReversePolish

/-- The state of a session. -/
structure Session where
  /-- The validator in use. -/
  accepts : Validator
  /-- The names it was asked about, first to last; nothing if no note is taken. -/
  asked : Option (List String)

/-- A request to a session. -/
inductive Request where
  /-- Start afresh, accepting every name. -/
  | new
  | withValidator (accepts : Validator)
  | convert (expression : String)
  | ask (name : String)
  | asked
  | describe

/-- The answer to a request. -/
inductive Answer where
  | done
  | converted (result : Except ConversionError Postfix)
  | accepted (answer : Bool)
  /-- The names asked about, if note is taken of them. -/
  | asked (names : Option (List String))
  | description (text : String)
deriving DecidableEq

namespace Session

/-- The session that accepts every name and takes no note. -/
def new : Session where
  accepts := acceptAll
  asked := none

/-- The session with another validator, which has not been asked yet. -/
def withValidator (accepts : Validator) : Session where
  accepts := accepts
  asked := some []

/-- The session after further names were asked about. -/
def note (names : List String) (s : Session) : Session :=
  { s with asked := s.asked.map (· ++ names) }

/-- What a session is described as: a converter, whose contents are not shown. -/
def description : String :=
  "Converter \x7b .. \x7d"

/-- The answer to a request, and the session after it. -/
def serve (s : Session) : Request → Answer × Session
  | .new => (.done, new)
  | .withValidator accepts => (.done, withValidator accepts)
  | .convert expression =>
    (.converted (convertWith s.accepts expression),
      s.note (conversion s.accepts expression).asked)
  | .ask name => (.accepted (s.accepts name), s.note [name])
  | .asked => (.asked s.asked, s)
  | .describe => (.description description, s)

/-- The answers to a sequence of requests. -/
def serveAll (s : Session) : List Request → List Answer
  | [] => []
  | r :: rs => (s.serve r).1 :: (s.serve r).2.serveAll rs

end Session

end ReversePolish
