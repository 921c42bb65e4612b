import ImapToJmap.Core.Command
import ImapToJmap.Data.Ascii

/-!
# The request receiver

`core/receiver.rs`: the tokenizer that IMAP and ManageSieve share.  It is fed the bytes of a network
read, stops at the first request or error, and keeps what it has of an unfinished request for the
next read.

`Receiver.step` is the body of the `while` loop of `Receiver::parse`, split by the state it is run
in.  A step either goes on with the next byte or returns from `parse`, with a request or an error;
in both cases it leaves a receiver behind, so `Loop` keeps one on both sides.
-/

namespace ImapToJmap

open Ascii

/-- `CommandParser` -/
class CommandParser (T : Type) extends Inhabited T where
  parse : Bytes → Bool → Option T
  tokenizeBrackets : T → Bool

/-- `Token` -/
inductive Token where
  | argument (value : Bytes)
  | parenthesisOpen
  | parenthesisClose
  | bracketOpen
  | bracketClose
  | lt
  | gt
  | dot
  | nil
deriving DecidableEq

/-- `Request` -/
structure Request (T : Type) where
  tag : String
  command : T
  tokens : List Token
deriving DecidableEq

instance {T : Type} [Inhabited T] : Inhabited (Request T) := ⟨⟨"", default, []⟩⟩

/-- `receiver::Error` -/
inductive Receiver.Error where
  | needsMoreData
  | needsLiteral (size : ℕ)
  | error (response : StatusResponse)
deriving DecidableEq

/-- `receiver::State` -/
inductive Receiver.State where
  | start
  | tag
  | command (isUid : Bool)
  | argument (lastCh : UInt8)
  | argumentQuoted (escaped : Bool)
  | literal (nonSync : Bool)
  | literalSeek (size : ℕ) (nonSync : Bool)
  | literalData (remaining : ℕ)
deriving DecidableEq

/-- `Receiver` -/
structure Receiver (T : Type) where
  buf : Bytes
  request : Request T
  state : Receiver.State
  maxRequestSize : ℕ
  currentRequestSize : ℕ
  startState : Receiver.State
deriving DecidableEq

namespace Receiver

/-- `Error::err` -/
def Error.err (tag : Option String) (message : String) : Error :=
  .error ⟨tag, some .parse, message, .bad⟩

/-- `{:?}` of a byte as a `char`. -/
def debugChar (ch : UInt8) : String :=
  let escaped :=
    if ch = 0 then "\\0"
    else if ch = 9 then "\\t"
    else if ch = 10 then "\\n"
    else if ch = 13 then "\\r"
    else if ch = 39 then "\\'"
    else if ch = 92 then "\\\\"
    else if 32 ≤ ch ∧ ch ≤ 126 ∨ 161 ≤ ch ∧ ch ≠ 173 then asciiString [ch]
    else "\\u\x7b" ++ String.ofList (Nat.toDigits 16 ch.toNat) ++ "\x7d"
  "'" ++ escaped ++ "'"

variable {T : Type} [CommandParser T]

/-- `Receiver::with_max_request_size` -/
def withMaxRequestSize (maxRequestSize : ℕ) : Receiver T where
  buf := []
  request := default
  state := .start
  maxRequestSize := maxRequestSize
  currentRequestSize := 0
  startState := .start

/-- `Receiver::with_start_state` -/
def withStartState (r : Receiver T) (state : State) : Receiver T :=
  { r with state := state, startState := state }

/-- One turn of the loop: go on with a receiver, or return a result and leave one behind. -/
abbrev Loop (T : Type) := Except (Receiver T × Except Error (Request T))

/-- Forget the request that was under way. -/
def reset (r : Receiver T) : Receiver T :=
  { r with buf := [], request := default, state := r.startState, currentRequestSize := 0 }

/-- `return Err(self.error_reset(message))` -/
def errorReset (r : Receiver T) (message : String) : Loop T (Receiver T) :=
  .error (r.reset, .error (.err (if r.request.tag = "" then none else some r.request.tag) message))

/-- `return Ok(std::mem::take(&mut self.request))` -/
def finish (r : Receiver T) : Loop T (Receiver T) :=
  .error ({ r with request := default, state := r.startState, currentRequestSize := 0 },
    .ok r.request)

/-- "Request exceeds maximum limit of {} bytes." -/
def tooLarge (r : Receiver T) : Loop T (Receiver T) :=
  r.errorReset ("Request exceeds maximum limit of " ++ toString r.maxRequestSize ++ " bytes.")

/-- `Receiver::push_argument` -/
def pushArgument (r : Receiver T) (inQuote : Bool) : Loop T (Receiver T) :=
  if r.buf ≠ [] then
    let r := { r with currentRequestSize := r.currentRequestSize + r.buf.length }
    if r.currentRequestSize > r.maxRequestSize then r.tooLarge
    else .ok { r with
      request := { r.request with tokens := r.request.tokens ++ [.argument r.buf] }
      buf := [] }
  else if inQuote then
    .ok { r with request := { r.request with tokens := r.request.tokens ++ [.nil] } }
  else .ok r

/-- `Receiver::push_token` -/
def pushToken (r : Receiver T) (token : Token) : Loop T (Receiver T) :=
  let r := { r with currentRequestSize := r.currentRequestSize + 1 }
  if r.currentRequestSize > r.maxRequestSize then r.tooLarge
  else .ok { r with request := { r.request with tokens := r.request.tokens ++ [token] } }

/-- `State::Start` -/
def stepStart (r : Receiver T) (ch : UInt8) : Loop T (Receiver T) :=
  if !isAsciiWhitespace ch then .ok { r with buf := r.buf ++ [ch], state := .tag }
  else if ch = lf then r.errorReset "Expected a tag."
  else .ok r

/-- `State::Tag` -/
def stepTag (r : Receiver T) (ch : UInt8) : Loop T (Receiver T) :=
  if ch = space then
    if r.buf ≠ [] then
      match fromUtf8 r.buf with
      | some tag => .ok { r with
          request := { r.request with tag := tag }
          buf := []
          state := .command false }
      | none => errorReset { r with buf := [] } "Tag is not a valid UTF-8 string."
    else .ok r
  else if !isAsciiWhitespace ch then
    if r.buf.length < 128 then .ok { r with buf := r.buf ++ [ch] }
    else r.errorReset "Tag too long."
  else r.errorReset ("Invalid character " ++ debugChar ch ++ " in tag.")

/-- `State::Command` -/
def stepCommand (r : Receiver T) (isUid : Bool) (ch : UInt8) : Loop T (Receiver T) :=
  if isAsciiAlphanumeric ch then
    if r.buf.length < 15 then .ok { r with buf := r.buf ++ [toAsciiUppercase ch] }
    else r.errorReset "Command too long"
  else if isAsciiWhitespace ch then
    if r.buf ≠ [] then
      if !eqIgnoreAsciiCase r.buf (asBytes "UID") then
        match CommandParser.parse r.buf isUid with
        | some command =>
            let r := { r with request := { r.request with command := command }, buf := [] }
            if ch ≠ lf then .ok { r with state := .argument space } else r.finish
        | none => r.errorReset ("Unrecognized command '" ++ asciiString r.buf ++ "'.")
      else .ok { r with buf := [], state := .command true }
    else .ok r
  else r.errorReset ("Invalid character " ++ debugChar ch ++ " in command name.")

/-- `State::Argument` -/
def stepArgument (r : Receiver T) (lastCh ch : UInt8) : Loop T (Receiver T) :=
  let brackets := CommandParser.tokenizeBrackets r.request.command
  if ch = quote ∧ isAsciiWhitespace lastCh then do
    let r ← r.pushArgument false
    return { r with state := .argumentQuoted false }
  else if ch = braceOpen ∧ isAsciiWhitespace lastCh then do
    let r ← r.pushArgument false
    return { r with state := .literal false }
  else if ch = parenOpen then do (← r.pushArgument false).pushToken .parenthesisOpen
  else if ch = parenClose then do (← r.pushArgument false).pushToken .parenthesisClose
  else if ch = bracketOpen ∧ brackets then do (← r.pushArgument false).pushToken .bracketOpen
  else if ch = bracketClose ∧ brackets then do (← r.pushArgument false).pushToken .bracketClose
  else if ch = lt ∧ brackets then do (← r.pushArgument false).pushToken .lt
  else if ch = gt ∧ brackets then do (← r.pushArgument false).pushToken .gt
  else if ch = dot ∧ brackets then do (← r.pushArgument false).pushToken .dot
  else if ch = lf then do (← r.pushArgument false).finish
  else if isAsciiWhitespace ch then do
    let r ← r.pushArgument false
    return { r with state := .argument ch }
  else .ok { r with buf := r.buf ++ [ch], state := .argument ch }

/-- `State::ArgumentQuoted` -/
def stepQuoted (r : Receiver T) (escaped : Bool) (ch : UInt8) : Loop T (Receiver T) :=
  if ch = quote then
    if !escaped then do
      let r ← r.pushArgument true
      return { r with state := .argument space }
    else if r.buf.length < 1024 then
      .ok { r with buf := r.buf ++ [ch], state := .argumentQuoted false }
    else r.errorReset "Quoted argument too long."
  else if ch = backslash then
    .ok { r with
      buf := if escaped then r.buf ++ [ch] else r.buf
      state := .argumentQuoted !escaped }
  else if ch = lf then r.errorReset "Unterminated quoted argument."
  else if r.buf.length < 1024 then
    .ok { r with
      buf := (if escaped then r.buf ++ [backslash] else r.buf) ++ [ch]
      state := .argumentQuoted false }
  else r.errorReset "Quoted argument too long."

/-- `State::Literal` -/
def stepLiteral (r : Receiver T) (nonSync : Bool) (ch : UInt8) : Loop T (Receiver T) :=
  if ch = braceClose then
    if r.buf ≠ [] then
      match parseU32 r.buf with
      | some size =>
          if r.currentRequestSize + size > r.maxRequestSize then
            r.errorReset ("Literal exceeds the maximum request size of " ++
              toString r.maxRequestSize ++ " bytes.")
          else .ok { r with state := .literalSeek size nonSync, buf := [] }
      | none => r.errorReset "Literal size is not a valid number."
    else r.errorReset "Invalid empty literal."
  else if ch = plus then
    if r.buf ≠ [] then .ok { r with state := .literal true }
    else r.errorReset "Invalid non-sync literal."
  else if isAsciiDigit ch then
    if !nonSync then .ok { r with buf := r.buf ++ [ch] }
    else r.errorReset "Invalid literal."
  else r.errorReset ("Invalid character " ++ debugChar ch ++ " in literal.")

/-- `State::LiteralSeek` -/
def stepLiteralSeek (r : Receiver T) (size : ℕ) (nonSync : Bool) (ch : UInt8) :
    Loop T (Receiver T) :=
  if ch = lf then do
    let r ←
      if size > 0 then .ok { r with state := .literalData size }
      else pushToken { r with state := .argument space } .nil
    if !nonSync then .error (r, .error (.needsLiteral size)) else .ok r
  else if !isAsciiWhitespace ch then
    r.errorReset "Expected CRLF after literal, found an invalid char."
  else .ok r

/-- `State::LiteralData` -/
def stepLiteralData (r : Receiver T) (remaining : ℕ) (ch : UInt8) : Loop T (Receiver T) :=
  let r := { r with buf := r.buf ++ [ch] }
  if remaining > 1 then .ok { r with state := .literalData (remaining - 1) }
  else do
    let r ← r.pushArgument false
    return { r with state := .argument space }

/-- The body of the loop of `Receiver::parse`. -/
def step (r : Receiver T) (ch : UInt8) : Loop T (Receiver T) :=
  match r.state with
  | .start => r.stepStart ch
  | .tag => r.stepTag ch
  | .command isUid => r.stepCommand isUid ch
  | .argument lastCh => r.stepArgument lastCh ch
  | .argumentQuoted escaped => r.stepQuoted escaped ch
  | .literal nonSync => r.stepLiteral nonSync ch
  | .literalSeek size nonSync => r.stepLiteralSeek size nonSync ch
  | .literalData remaining => r.stepLiteralData remaining ch

/-- `Receiver::parse`: the result, the receiver left behind and the bytes not yet consumed. -/
def parse (r : Receiver T) : Bytes → Except Error (Request T) × Receiver T × Bytes
  | [] => (.error .needsMoreData, r, [])
  | ch :: bytes =>
      match r.step ch with
      | .ok r => r.parse bytes
      | .error (r, result) => (result, r, bytes)

end Receiver

end ImapToJmap
