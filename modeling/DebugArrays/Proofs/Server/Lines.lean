import DebugArrays.Proofs.Json.Plain
import DebugArrays.Proofs.Protocol.Response
import DebugArrays.Proofs.Server.Decoding
import DebugArrays.Proofs.Session.Capacity
import Mathlib.Data.List.ReduceOption

/-!
What a run writes, line by line. What a line is answered depends on the requests before it and on
nothing else that came before.
-/
namespace DebugArrays.Server

/-- A line that asks for the end of a run. -/
def ends (line : List UInt8) : Bool :=
  (decoded? line).any fun m => m.content.isShutdown

/-- The answer to a line after others, if there is one. `responses` are those to all requests, so
the one for this line has as many before it as there are requests before the line. -/
def reply (platform : Platform) (responses : List Response) (before : List (List UInt8))
    (line : List UInt8) : Option (Message Response) :=
  if before.any ends then none
  else (textOfLine? line).bind fun text =>
    match Message.requestOfText? text with
    | none =>
      some
        { version := "2.0"
          id := some 0
          content := .error ("Parse error: " ++ platform.complaint text) }
    | some m => responses[(requests before).length]?.map fun response =>
        { version := "2.0", id := some (m.id.getD 0), content := response }

def repliesAfter (platform : Platform) (responses : List Response) (before : List (List UInt8)) :
    List (List UInt8) → List (Option (Message Response))
  | [] => []
  | line :: rest =>
    reply platform responses before line :: repliesAfter platform responses (before ++ [line]) rest

/-- The answers to each of an input's lines, by one handler that is given all their requests. -/
def replies (platform : Platform) (config : Config) (lines : List (List UInt8)) :
    List (Option (Message Response)) :=
  repliesAfter platform ((Handler.new config).handleAll (requests lines)) [] lines

variable {platform : Platform} {responses : List Response} {before lines : List (List UInt8)}
  {line : List UInt8} {text : String} {m : Message Request}

theorem requests_append (first second : List (List UInt8)) :
    requests (first ++ second) = requests first ++ requests second := by
  unfold requests
  rw [List.filterMap_append, List.map_append]

theorem requests_cons_none (unread : decoded? line = none) (rest : List (List UInt8)) :
    requests (line :: rest) = requests rest := by
  unfold requests
  rw [List.filterMap_cons_none unread]

theorem requests_cons_some (read : decoded? line = some m) (rest : List (List UInt8)) :
    requests (line :: rest) = m.content :: requests rest := by
  unfold requests
  rw [List.filterMap_cons_some read, List.map_cons]

theorem requests_insert {x : List UInt8} (unread : decoded? x = none)
    (first second : List (List UInt8)) :
    requests (first ++ x :: second) = requests (first ++ second) := by
  rw [requests_append, requests_cons_none unread, requests_append]

theorem decoded?_eq (found : textOfLine? line = some text) :
    decoded? line = Message.requestOfText? text := by
  rw [decoded?, found, Option.bind_some]

theorem decoded?_of_silent (silent : textOfLine? line = none) : decoded? line = none := by
  rw [decoded?, silent, Option.bind_none]

theorem ends_of_undecoded (unread : decoded? line = none) : ends line = false := by
  rw [ends, unread, Option.any_none]

theorem ends_eq (read : decoded? line = some m) : ends line = m.content.isShutdown := by
  rw [ends, read, Option.any_some]

theorem reply_of_past (past : before.any ends = true) :
    reply platform responses before line = none :=
  if_pos past

theorem reply_of_silent (silent : textOfLine? line = none) :
    reply platform responses before line = none := by
  unfold reply
  rw [silent, Option.bind_none, ite_self]

theorem reply_of_undecoded (running : before.any ends = false)
    (found : textOfLine? line = some text) (unread : Message.requestOfText? text = none) :
    reply platform responses before line =
      some (.new 0 (.error ("Parse error: " ++ platform.complaint text))) := by
  unfold reply
  rw [running, found, Option.bind_some, unread]
  rfl

theorem reply_of_decoded (running : before.any ends = false) (read : decoded? line = some m) :
    reply platform responses before line =
      responses[(requests before).length]?.map (.new (m.id.getD 0)) := by
  obtain ⟨text, found, parsed⟩ := Option.bind_eq_some_iff.1 read
  unfold reply
  rw [running, found, Option.bind_some, parsed]
  rfl

/-- A line without a request changes nothing for those after it. -/
theorem reply_insert {x : List UInt8} (unread : decoded? x = none)
    (first second : List (List UInt8)) :
    reply platform responses (first ++ x :: second) line =
      reply platform responses (first ++ second) line := by
  have past : (first ++ x :: second).any ends = (first ++ second).any ends := by
    rw [List.any_append, List.any_cons, ends_of_undecoded unread, Bool.false_or, List.any_append]
  unfold reply
  rw [requests_insert unread, past]

theorem repliesAfter_append (first second : List (List UInt8)) :
    repliesAfter platform responses before (first ++ second) =
      repliesAfter platform responses before first ++
        repliesAfter platform responses (before ++ first) second := by
  induction first generalizing before with
  | nil => rw [List.append_nil]; rfl
  | cons line rest ih =>
      rw [List.cons_append, repliesAfter, ih, repliesAfter, List.append_assoc]
      rfl

theorem length_repliesAfter :
    (repliesAfter platform responses before lines).length = lines.length := by
  induction lines generalizing before with
  | nil => rfl
  | cons line rest ih => exact congrArg Nat.succ ih

theorem getElem?_repliesAfter (i : Nat) :
    (repliesAfter platform responses before lines)[i]? =
      lines[i]?.map (reply platform responses (before ++ lines.take i)) := by
  induction lines generalizing before i with
  | nil => rfl
  | cons line rest ih =>
      cases i with
      | zero =>
          rw [List.take_zero, List.append_nil]
          rfl
      | succ i =>
          rw [repliesAfter, List.getElem?_cons_succ, ih, List.getElem?_cons_succ,
            List.take_succ_cons, List.append_assoc, List.singleton_append]

theorem repliesAfter_insert {x : List UInt8} (unread : decoded? x = none)
    (first second : List (List UInt8)) :
    repliesAfter platform responses (first ++ x :: second) lines =
      repliesAfter platform responses (first ++ second) lines := by
  induction lines generalizing second with
  | nil => rfl
  | cons line rest ih =>
      rw [repliesAfter, reply_insert unread, List.append_assoc, List.cons_append, ih, repliesAfter,
        List.append_assoc]

theorem repliesAfter_skip (unread : decoded? line = none) :
    repliesAfter platform responses (before ++ [line]) lines =
      repliesAfter platform responses before lines := by
  rw [repliesAfter_insert unread, List.append_nil]

/-- After the end nothing is written. -/
theorem reduceOption_repliesAfter_of_past (past : before.any ends = true) :
    (repliesAfter platform responses before lines).reduceOption = [] := by
  induction lines generalizing before with
  | nil => rfl
  | cons line rest ih =>
      rw [repliesAfter, reply_of_past past, List.reduceOption_cons_of_none]
      exact ih (by rw [List.any_append, past, Bool.true_or])

section Advance

variable {h next last : Handler} {response : Response} {answered later : List Response}

theorem advance_of_silent (silent : textOfLine? line = none) (rest : List (List UInt8)) :
    advance platform h (line :: rest) = advance platform h rest := by
  rw [advance, silent]

theorem advance_of_undecoded (found : textOfLine? line = some text)
    (unread : Message.requestOfText? text = none) (rest : List (List UInt8)) :
    advance platform h (line :: rest) =
      { advance platform h rest with
        written :=
          Message.responseText (.new 0 (.error ("Parse error: " ++ platform.complaint text))) ::
            (advance platform h rest).written } := by
  simp only [advance, found, react, unread]
  rfl

theorem advance_of_decoded (read : decoded? line = some m)
    (handled : h.handle m.content = .ok (response, next)) (rest : List (List UInt8)) :
    advance platform h (line :: rest) =
      if m.content.isShutdown then
        ⟨[Message.responseText (.new (m.id.getD 0) response)], .ended 0⟩
      else
        { advance platform next rest with
          written := Message.responseText (.new (m.id.getD 0) response) ::
            (advance platform next rest).written } := by
  obtain ⟨text, found, parsed⟩ := Option.bind_eq_some_iff.1 read
  simp only [advance, found, react, parsed, handled, Except.map]

/-- A run on lines whose requests can all be handled: it writes what is to be replied, and goes on
or ends well. -/
theorem advance_eq (running : before.any ends = false)
    (count : answered.length = (requests before).length)
    (ran : h.run (requests lines) = .ok (later, last)) :
    ∃ status, advance platform h lines =
        ⟨(repliesAfter platform (answered ++ later) before lines).reduceOption.map
          Message.responseText, status⟩ ∧
      (status = .ended 0 ∨ ∃ h, status = .running h) := by
  induction lines generalizing h before answered later with
  | nil => exact ⟨.running h, rfl, .inr ⟨h, rfl⟩⟩
  | cons line rest ih =>
      rw [repliesAfter]
      cases found : textOfLine? line with
      | none =>
          have unread := decoded?_of_silent found
          rw [requests_cons_none unread] at ran
          rw [advance_of_silent found, reply_of_silent found, List.reduceOption_cons_of_none,
            repliesAfter_skip unread]
          exact ih running count ran
      | some text =>
          cases parsed : Message.requestOfText? text with
          | none =>
              have unread := (decoded?_eq found).trans parsed
              rw [requests_cons_none unread] at ran
              obtain ⟨status, wrote, fine⟩ := ih running count ran
              rw [advance_of_undecoded found parsed, wrote,
                reply_of_undecoded running found parsed, List.reduceOption_cons_of_some,
                repliesAfter_skip unread]
              exact ⟨status, rfl, fine⟩
          | some m =>
              have read := (decoded?_eq found).trans parsed
              rw [requests_cons_some read] at ran
              obtain ⟨response, next, others, handled, tail, rfl⟩ := Handler.run_cons_ok.1 ran
              have here : (answered ++ response :: others)[(requests before).length]? =
                  some response := by
                rw [← count, List.getElem?_append_right (Nat.le_refl _), Nat.sub_self]
                rfl
              rw [advance_of_decoded read handled, reply_of_decoded running read, here,
                Option.map_some, List.reduceOption_cons_of_some]
              have past : (before ++ [line]).any ends = m.content.isShutdown := by
                rw [List.any_append, running, List.any_cons, ends_eq read, List.any_nil,
                  Bool.or_false, Bool.false_or]
              cases final : m.content.isShutdown with
              | true =>
                  rw [reduceOption_repliesAfter_of_past (past.trans final)]
                  exact ⟨.ended 0, rfl, .inl rfl⟩
              | false =>
                  have more : (answered ++ [response]).length =
                      (requests (before ++ [line])).length := by
                    rw [requests_append, requests_cons_some read, List.length_append,
                      List.length_append, count]
                    rfl
                  obtain ⟨status, wrote, fine⟩ := ih (past.trans final) more tail
                  rw [List.append_assoc, List.singleton_append] at wrote
                  rw [wrote]
                  exact ⟨status, rfl, fine⟩

end Advance

/-- A line is answered if it has a text and no line before it asked for the end. -/
theorem isSome_reply (enough : (requests (before ++ [line])).length ≤ responses.length) :
    (reply platform responses before line).isSome = true ↔
      HasText line ∧ before.any ends = false := by
  cases past : before.any ends with
  | true => simp [reply_of_past past]
  | false =>
      rw [← isSome_textOfLine?]
      cases found : textOfLine? line with
      | none => simp [reply_of_silent found]
      | some text =>
          cases parsed : Message.requestOfText? text with
          | none => simp [reply_of_undecoded past found parsed]
          | some m =>
              have read := (decoded?_eq found).trans parsed
              rw [requests_append, requests_cons_some read, List.length_append, List.length_cons]
                at enough
              have here : (requests before).length < responses.length := by omega
              simp [reply_of_decoded past read, here]

section Run

variable {config : Config} {ended : List (List UInt8)} {last : List UInt8}

theorem replies_insert {x : List UInt8} (unread : decoded? x = none)
    (first second : List (List UInt8)) :
    (replies platform config (first ++ x :: second)).eraseIdx first.length =
      replies platform config (first ++ second) := by
  unfold replies
  rw [requests_insert unread, repliesAfter_append, repliesAfter_append, List.nil_append,
    repliesAfter, repliesAfter_skip unread,
    List.eraseIdx_append_of_length_le (Nat.le_of_eq length_repliesAfter), length_repliesAfter,
    Nat.sub_self]
  rfl

/-- Requests of lines that are not too long together can all be handled. -/
theorem exists_run_requests (config : Config) (short : (lines.map List.length).sum < 2 ^ 62) :
    ∃ responses h, (Handler.new config).run (requests lines) = .ok (responses, h) := by
  have light := weight_requests_le lines
  exact Handler.exists_run (by omega)

theorem run_of_run_requests {lookup : String → Option String} {input : List UInt8} {h : Handler}
    (accepted : platform.acceptsFilter (Config.ofLookup lookup).logFilter = true)
    (ran : (Handler.new (Config.ofLookup lookup)).run (requests (splitLines input)) =
      .ok (responses, h)) :
    run platform lookup input = ⟨0, (replies platform (Config.ofLookup lookup)
      (splitLines input)).reduceOption.map Message.responseText⟩ := by
  have start : ([] : List Response).length = (requests []).length := rfl
  obtain ⟨status, wrote, fine⟩ := advance_eq (List.any_nil : [].any ends = false) start ran
  unfold run replies
  dsimp only
  rw [if_pos accepted, wrote, Handler.handleAll_of_run ran, List.nil_append]
  obtain rfl | ⟨h, rfl⟩ := fine
  · rfl
  · rfl

theorem isSome_of_run_requests {h : Handler} {i : Nat}
    (ran : (Handler.new config).run (requests lines) = .ok (responses, h))
    (there : lines[i]? = some line) :
    (replies platform config lines)[i]?.join.isSome = true ↔
      HasText line ∧ ∀ earlier ∈ lines.take i, ends earlier = false := by
  have enough : (requests (lines.take i ++ [line])).length ≤ responses.length := by
    have first : lines.take i ++ [line] = lines.take (i + 1) := by
      rw [List.take_add_one, there, Option.toList_some]
    rw [Handler.length_of_run ran, first, ← List.take_append_drop (i + 1) lines, requests_append,
      List.length_append, List.take_append_drop]
    exact Nat.le_add_right _ _
  unfold replies
  rw [getElem?_repliesAfter, there, Handler.handleAll_of_run ran, List.nil_append, Option.map_some,
    Option.join_some]
  simpa only [List.any_eq_false, Bool.not_eq_true] using isSome_reply enough

/-- What is written of answers is read back as them, and is one line each. -/
theorem written_answers (answers : List (Message Response)) :
    (answers.map Message.responseText).map Message.responseOfText? = answers.map some ∧
      ∀ text ∈ answers.map Message.responseText, Text.Plain text.toList := by
  constructor
  · simp only [List.map_map, Function.comp_def, Message.read_responseText]
  · intro text member
    obtain ⟨m, -, rfl⟩ := List.mem_map.1 member
    exact Json.plain_compact _

/-- The server answers line by line, and ends well, in every environment whose log filter is
accepted. A line is answered if it has a text and the end has not been asked for; its answer is
written on one line from which version, id and response are read back, and depends on no line
without a request. Only a ledger with no room for the requests can stop a run, and to fill one takes
2 ^ 62 bytes. -/
theorem run_replies {lookup : String → Option String}
    (accepted : platform.acceptsFilter (Config.ofLookup lookup).logFilter = true)
    (clean : ∀ line ∈ ended, 10 ∉ line) (cleanLast : 10 ∉ last) :
    let lines := if last = [] then ended else ended ++ [last]
    let answers := replies platform (Config.ofLookup lookup)
    ((∃ written, run platform lookup (joinLines ended last) = ⟨0, written⟩ ∧
          written.map Message.responseOfText? = (answers lines).reduceOption.map some ∧
          ∀ text ∈ written, Text.Plain text.toList) ∧
        (∀ i line, lines[i]? = some line →
          ((answers lines)[i]?.join.isSome = true ↔
            HasText line ∧ ∀ earlier ∈ lines.take i, ends earlier = false)) ∨
      2 ^ 62 ≤ (joinLines ended last).length ∧
        ∃ fault, (Handler.new (Config.ofLookup lookup)).run (requests lines) = .error fault) ∧
      ∀ first x second, lines = first ++ x :: second → decoded? x = none →
        (answers lines).eraseIdx first.length = answers (first ++ second) := by
  dsimp only
  rw [← splitLines_joinLines clean cleanLast]
  constructor
  · cases ran : (Handler.new (Config.ofLookup lookup)).run
      (requests (splitLines (joinLines ended last))) with
    | ok outcome =>
        refine .inl ⟨⟨_, run_of_run_requests accepted ran, written_answers _⟩, ?_⟩
        exact fun i line => isSome_of_run_requests ran
    | error fault =>
        refine .inr ⟨?_, fault, rfl⟩
        by_contra short
        have fits := sum_length_splitLines_le (joinLines ended last)
        obtain ⟨responses, h, handled⟩ := exists_run_requests (Config.ofLookup lookup)
          (Nat.lt_of_le_of_lt fits (Nat.lt_of_not_le short))
        cases handled.symm.trans ran
  · intro first x second split unread
    rw [split]
    exact replies_insert unread first second

end Run

def bytesOf (text : String) : List UInt8 :=
  text.toUTF8.data.toList

/-- A blank log filter, and arrays that are held as objects. -/
def sampleLookup (name : String) : Option String :=
  if name = "DBGEVAL_LOG" then some " "
  else if name = "DBGEVAL_BY_REFERENCE" then some " off"
  else none

/-- Takes a level for a filter. A text that starts no value is complained of like this. -/
def samplePlatform : Platform where
  acceptsFilter filter := ["trace", "debug", "info", "warn", "error", "off"].contains filter
  complaint _ := "expected value at line 1 column 1"

/-- A line that is no text, one without a request, a blank one, requests with an id, without one and
with null for one, and the end. -/
def sampleLines : List (List UInt8) :=
  [[255], bytesOf "x\r", bytesOf " \t",
    bytesOf ("\x7b\"jsonrpc\":\"2.0\",\"id\":7,\"method\":\"initialize\",\"params\":\x7b" ++
      "\"arrays\":[\x7b\"name\":\"a\",\"element_type\":\"int\",\"elements\":[1,null]\x7d]\x7d\x7d"),
    bytesOf "\x7b\"jsonrpc\":\"2.0\",\"method\":\"length\",\"params\":\x7b\"name\":\"a\"\x7d\x7d",
    bytesOf "\x7b\"jsonrpc\":\"2.0\",\"id\":null,\"method\":\"stats\"\x7d",
    bytesOf "\x7b\"jsonrpc\":\"2.0\",\"id\":4,\"method\":\"shutdown\"\x7d"]

/-- A request that comes too late, and whose line is not ended. -/
def lateLine : List UInt8 :=
  bytesOf "\x7b\"jsonrpc\":\"2.0\",\"id\":5,\"method\":\"stats\"\x7d"

theorem run_replies_sample :
    ∃ written, run samplePlatform sampleLookup (joinLines sampleLines lateLine) = ⟨0, written⟩ ∧
      written =
        ["\x7b\"jsonrpc\":\"2.0\",\"id\":0,\"error\":\"Parse error: expected value at line 1 " ++
            "column 1\"\x7d",
          "\x7b\"jsonrpc\":\"2.0\",\"id\":7,\"ok\":true\x7d",
          "\x7b\"jsonrpc\":\"2.0\",\"id\":0,\"found\":true,\"length\":2\x7d",
          "\x7b\"jsonrpc\":\"2.0\",\"id\":0,\"stats\":\x7b\"issued\":1,\"released\":0," ++
            "\"dereferences\":0,\"element_reads\":0,\"length_queries\":1\x7d\x7d",
          "\x7b\"jsonrpc\":\"2.0\",\"id\":4,\"ok\":true\x7d"] ∧
      written.map Message.responseOfText? =
        [some ⟨"2.0", some 0, .error "Parse error: expected value at line 1 column 1"⟩,
          some ⟨"2.0", some 7, .success true⟩, some ⟨"2.0", some 0, .length true 2⟩,
          some ⟨"2.0", some 0, .stats { issued := 1, lengthQueries := 1 }⟩,
          some ⟨"2.0", some 4, .success true⟩] := by
  have accepted : samplePlatform.acceptsFilter (Config.ofLookup sampleLookup).logFilter = true := by
    decide +kernel
  have clean : ∀ line ∈ sampleLines, 10 ∉ line := by decide +kernel
  have cleanLast : 10 ∉ lateLine := by decide +kernel
  obtain ⟨⟨⟨written, wrote, back, -⟩, -⟩ | ⟨long, -⟩, -⟩ :=
    run_replies accepted clean cleanLast
  · refine ⟨written, wrote, ?_, ?_⟩
    · have texts : (run samplePlatform sampleLookup (joinLines sampleLines lateLine)).written =
          written := by rw [wrote]
      rw [← texts]
      decide +kernel
    · rw [back]
      decide +kernel
  · exact absurd long (by decide +kernel)

end DebugArrays.Server
