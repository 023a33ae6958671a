import PocketCalc.Evaluation
import PocketCalc.Key
import PocketCalc.Settings

/-!
# Sessions

A session holds the expression that is being typed, or the marker after an evaluation that failed.
Keys are typed one at a time, and the text is kept in good order while it grows:

* of several operators in a row the last one counts;
* a number has one point at most;
* a multiplication sign that is left out before a group, a constant or a function, or between a
  closed group or a constant and a number, is put in.

The text is never empty: nothing typed is shown as `0`.  The error and the trace of the last
evaluation are kept until the next one.
-/

namespace PocketCalc

/-! ### The typed text -/

/-- The text of an expression that nothing has been typed of. -/
def emptyBuffer : List Char := ['0']

/-- The run of digits and points that a text ends with, in reverse. -/
def lastFigures (buffer : List Char) : List Char :=
  buffer.reverse.takeWhile isFigure

/-- A multiplication sign is left out between a text that ends in `last` and a key. -/
def impliesTimes (last : Char) (key : Key) : Bool :=
  (endsValue last && key.opensGroup) ||
    ((last == ')' || isConstantChar last) && key.startsNumber)

/-- The text after a key is typed. -/
def insertKey (buffer : List Char) (key : Key) : List Char :=
  if key.isOperator && buffer.getLast?.any isOperatorChar then buffer.dropLast ++ key.text
  else if key = .point ∧ '.' ∈ lastFigures buffer then buffer
  else if buffer = emptyBuffer ∧ key ≠ .point ∧ key.isOperator = false then key.text
  else if buffer.getLast?.any (impliesTimes · key) then buffer ++ '*' :: key.text
  else buffer ++ key.text

/-! ### Sessions and what is done in them -/

/-- A session with a calculator. -/
structure Session where
  /-- The settings, which stay the same for the whole session. -/
  settings : Settings := {}
  /-- The text that is shown: the expression, a result, or the marker. -/
  buffer : List Char := emptyBuffer
  /-- The last evaluation failed, and its marker is still shown. -/
  inError : Bool := false
  /-- Why the last evaluation failed, if it did. -/
  lastError : Option CalcError := none
  /-- How the last result came about, if there was one. -/
  lastTrace : Option Trace := none

/-- What can be done in a session. -/
inductive Action
  /-- Types the key with the given text, if there is one. -/
  | append (text : List Char)
  /-- Takes back all that was typed. -/
  | clear
  /-- Takes back the last character. -/
  | delete
  /-- Puts the result in place of the expression. -/
  | evaluate

namespace Session

/-- Starts again with nothing typed. -/
def clear (s : Session) : Session := { s with buffer := emptyBuffer, inError := false }

/-- Takes back the last character, or the marker. -/
def delete (s : Session) : Session :=
  if s.inError then s.clear
  else
    let rest := s.buffer.dropLast
    { s with buffer := if rest.isEmpty then emptyBuffer else rest }

/-- Types a key; a marker gives way to it. -/
def press (s : Session) (key : Key) : Session :=
  let s := if s.inError then s.clear else s
  { s with buffer := insertKey s.buffer key }

/-- Types the key with the given text; a text that is on no key changes nothing. -/
def append (s : Session) (text : List Char) : Session :=
  match Key.read? text with
  | some key => s.press key
  | none => s

/-- Puts the result in place of the expression, or the marker if there is none; while a marker is
shown, nothing happens. -/
def evaluate (s : Session) : Session :=
  if s.inError then s
  else
    match PocketCalc.evaluate s.buffer s.settings.places with
    | .ok e => { s with buffer := e.text, lastError := none, lastTrace := some e.trace }
    | .error error =>
      { s with
        buffer := s.settings.marker, inError := true, lastError := some error, lastTrace := none }

/-- The session after an action. -/
def act (s : Session) : Action → Session
  | .append text => s.append text
  | .clear => s.clear
  | .delete => s.delete
  | .evaluate => s.evaluate

/-- The session after several actions. -/
def run (s : Session) (actions : List Action) : Session := actions.foldl act s

theorem run_append (s : Session) (as bs : List Action) :
    s.run (as ++ bs) = (s.run as).run bs := by
  simp [run]

end Session

end PocketCalc
