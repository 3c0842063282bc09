import TxEnvelope.Envelope
import TxEnvelope.Inspect.Arguments
import TxEnvelope.Inspect.Quoted
import TxEnvelope.Inspect.WhiteSpace

/-! What the inspection command does, as a function of its surroundings.

`json` reads a record and shows the kind, the digest and the canonical bytes;
`raw` reads canonical bytes and shows the record. Logging is left out: verbosity
changes nothing here, and no log filter is read from `RUST_LOG`, so a filter
that cannot be parsed is not among the failures.
-/

set_option autoImplicit false

namespace TxEnvelope.Inspect

structure Surroundings where
  environment : Environment
  stdin : Bytes
  /-- The content of a file, or why it cannot be read. -/
  file : String → Except String Bytes

def noSuchFile : String :=
  "No such file or directory (os error 2)"

/-- A refusal: what was being done and why it failed, the nearest cause first. -/
structure Failure where
  context : String
  causes : List String
  deriving DecidableEq, Repr

inductive Outcome where
  | shown (text : String)
  | failed (failure : Failure)
  | misused
  deriving DecidableEq, Repr

/-- Causes under each other; more than one are numbered from zero. -/
def numberCauses : List String → String
  | [cause] => "\n    " ++ cause
  | causes => String.join (causes.mapIdx fun i cause => "\n    " ++ toString i ++ ": " ++ cause)

def Failure.message (failure : Failure) : String :=
  "Error: " ++ failure.context ++ "\n\nCaused by:" ++ numberCauses failure.causes

/-- A refused transaction; the cause behind the refusal is listed after it. -/
def Failure.ofError (context : String) (e : Error) : Failure :=
  ⟨context, e.message :: e.cause?.toList⟩

def hexMessage : Hex.Error → String
  | .oddLength => "odd number of digits"
  | .invalidCharacter byte position =>
    "invalid character " ++ String.ofList (quoteByte byte) ++ " at position " ++ toString position

def decodeText (context : String) (content : Bytes) : Except Failure String :=
  match String.fromUTF8? ⟨content.toArray⟩ with
  | none => .error ⟨context, ["stream did not contain valid UTF-8"]⟩
  | some text => .ok text

/-- The path under which standard input is a file. -/
def stdinPath : String :=
  "/dev/stdin"

def Source.read (surroundings : Surroundings) : Source → Except Failure String
  | .stdin => decodeText "failed to read stdin" surroundings.stdin
  | .file path =>
    let context := "failed to read " ++ path
    -- The report names the path even where the path stands for standard input.
    let content := if path = stdinPath then .ok surroundings.stdin else surroundings.file path
    match content with
    | .error reason => .error ⟨context, [reason]⟩
    | .ok content => decodeText context content
  | .given text => .ok text

def typeByteText (kind : Kind) : List Char :=
  Hex.encode [kind.byte]

/-- The lines about a transaction: kind, digest, canonical bytes and, for an annotated deposit,
its nonce. -/
def describe (envelope : Envelope) : String :=
  let tx := envelope.transaction
  let lines :=
    ["type:  " ++ tx.kind.name ++ " (" ++ String.ofList (typeByteText tx.kind) ++ ")",
      "hash:  " ++ String.ofList (Hex.encode envelope.hash.1.bytes),
      "raw:   " ++ String.ofList (Hex.encode tx.encode)]
  let annotation :=
    match tx.annotation? with
    | none => []
    | some nonce => ["nonce: " ++ toString nonce.toNat ++ " (annotation)"]
  String.intercalate "\n" (lines ++ annotation)

def inspectJson (text : String) : Except Failure String :=
  match Envelope.ofJson text with
  | .error e => .error (.ofError "invalid transaction json" e)
  | .ok envelope => .ok (describe envelope)

def inspectRaw (text : String) : Except Failure String :=
  match Hex.decode (Bytes.ofText (trim text.toList)) with
  | .error e => .error ⟨"invalid hex", [hexMessage e]⟩
  | .ok bytes =>
    match Transaction.decodeExact bytes with
    | .error e => .error (.ofError "invalid transaction envelope" e.toError)
    | .ok tx => .ok (String.ofList ((Envelope.new tx).record.1.document.print .indented))

def Subcommand.inspect : Subcommand → String → Except Failure String
  | .json => inspectJson
  | .raw => inspectRaw

/-- Runs the command. What it shows is closed by a line feed. -/
def run (arguments : List String) (surroundings : Surroundings) : Outcome :=
  match plan arguments surroundings.environment with
  | none => .misused
  | some (subcommand, source) =>
    match (source.read surroundings).bind subcommand.inspect with
    | .error failure => .failed failure
    | .ok text => .shown (text ++ "\n")

end TxEnvelope.Inspect
