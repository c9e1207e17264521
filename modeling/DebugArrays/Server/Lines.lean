import DebugArrays.Protocol.Message
import DebugArrays.Server.Handler

/-!
The server on lines of input. A line that is no UTF-8 text or blank is passed over; every other line
gets one line for an answer, up to and including the answer to `shutdown`.
-/
namespace DebugArrays.Server

/-- What a server takes from the libraries for logging and for reading JSON. -/
structure Platform where
  acceptsFilter : String → Bool
  /-- What is said against a text that is no request. -/
  complaint : String → String

/-- The lines that bytes complete, without their line feeds, and the bytes after the last of these.
-/
def cutLines : List UInt8 → List (List UInt8) × List UInt8
  | [] => ([], [])
  | byte :: rest =>
    let (lines, last) := cutLines rest
    if byte = 10 then ([] :: lines, last)
    else match lines with
      | [] => ([], byte :: last)
      | line :: lines => ((byte :: line) :: lines, last)

/-- All lines of an input. Bytes without a line feed at its end are a line as well. -/
def splitLines (input : List UInt8) : List (List UInt8) :=
  let (lines, last) := cutLines input
  if last.isEmpty then lines else lines ++ [last]

/-- The text of a line that asks for an answer. A carriage return at the end belongs to the line
end. -/
def textOfLine? (line : List UInt8) : Option String :=
  let bytes := if line.getLast? = some 13 then line.dropLast else line
  match String.fromUTF8? (ByteArray.mk bytes.toArray) with
  | some text => if Text.isBlankText text then none else some text
  | none => none

structure Reaction where
  answer : String
  /-- The answer is the last. -/
  final : Bool
  handler : Handler

/-- The answer carries the id of the request, and 0 where there is none to carry. -/
def react (platform : Platform) (handler : Handler) (text : String) : Except Fault Reaction :=
  match Message.requestOfText? text with
  | some request =>
    (handler.handle request.content).map fun (response, handler) =>
      { answer := Message.responseText (.new (request.id.getD 0) response)
        final := request.content.isShutdown
        handler }
  | none =>
    .ok
      { answer :=
          Message.responseText (.new 0 (.error ("Parse error: " ++ platform.complaint text)))
        final := false
        handler }

inductive Status where
  | running (handler : Handler)
  | ended (exit : UInt8)

def faultExit : UInt8 := 101

/-- What lines made the server write, and where it stands after them. -/
structure Progress where
  written : List String
  status : Status

def advance (platform : Platform) (handler : Handler) : List (List UInt8) → Progress
  | [] => ⟨[], .running handler⟩
  | line :: rest =>
    match textOfLine? line with
    | none => advance platform handler rest
    | some text =>
      match react platform handler text with
      | .error _ => ⟨[], .ended faultExit⟩
      | .ok reaction =>
        if reaction.final then ⟨[reaction.answer], .ended 0⟩
        else
          let later := advance platform reaction.handler rest
          { later with written := reaction.answer :: later.written }

/-- Lines may be handed over in any portions. -/
theorem advance_append (platform : Platform) (handler : Handler)
    (first second : List (List UInt8)) :
    advance platform handler (first ++ second) =
      match advance platform handler first with
      | ⟨written, .running handler⟩ =>
        let later := advance platform handler second
        { later with written := written ++ later.written }
      | ⟨written, .ended exit⟩ => ⟨written, .ended exit⟩ := by
  induction first generalizing handler with
  | nil => rfl
  | cons line rest ih =>
    simp only [List.cons_append, advance]
    cases textOfLine? line with
    | none => exact ih handler
    | some text =>
      dsimp only
      cases react platform handler text with
      | error fault => rfl
      | ok reaction =>
        dsimp only
        cases reaction.final with
        | true => rfl
        | false =>
          simp only [Bool.false_eq_true, if_false, ih reaction.handler]
          rcases advance platform reaction.handler rest with ⟨written, _ | _⟩ <;> rfl

/-- How a run ends, and all it has written. -/
structure Outcome where
  exit : UInt8
  written : List String
deriving DecidableEq

/-- A whole run, in an environment and on an input. A log filter that is not accepted ends it before
anything is read. -/
def run (platform : Platform) (lookup : String → Option String) (input : List UInt8) : Outcome :=
  let config := Config.ofLookup lookup
  if platform.acceptsFilter config.logFilter then
    match advance platform (.new config) (splitLines input) with
    | ⟨written, .running _⟩ => ⟨0, written⟩
    | ⟨written, .ended exit⟩ => ⟨exit, written⟩
  else ⟨1, []⟩

end DebugArrays.Server
