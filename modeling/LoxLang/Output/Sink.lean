import LoxLang.Output.Buffer

/-!
# Where a program prints to

* `Writer` — how a sink of the host answers what is asked of it.
* `Sink` — passes bytes on at once, keeps them back until it is flushed, takes only so many of them and
  may refuse to flush, or leaves everything to a writer.
* **`Sink.write`**, **`Sink.flush`** — the sink afterwards, and what went wrong.

A print reaches a sink as a few pieces one after another, of which the first that is refused is the last.
They are one write here, and a refusal of it is the refusal of that piece.
-/

namespace LoxLang

/-- Why a sink refuses, in its own wording. -/
structure SinkError where
  message : String
  deriving DecidableEq, Repr

namespace SinkError

/-- There is no room for all the bytes. -/
def full : SinkError := ⟨"sink full"⟩

/-- What waits cannot be passed on. -/
def flushFailed : SinkError := ⟨"flush failed"⟩

end SinkError

/-- Something that is asked of a sink. -/
inductive SinkRequest where
  | write (bytes : ByteArray)
  | flush

/-- What comes of a request: a refusal, if there is one, and the bytes that arrive. -/
structure SinkAnswer where
  refusal : Option SinkError
  arriving : ByteArray

/-- How a sink of the host answers.  It may go by everything that was asked of it before, the last
request first, so it may refuse at one time and not at another. -/
structure Writer where
  write : List SinkRequest → ByteArray → SinkAnswer
  flush : List SinkRequest → SinkAnswer

/-- Where a program prints to, with the bytes that have arrived. -/
inductive Sink where
  | direct (arrived : Buffer)
  | buffered (waiting arrived : Buffer)
  /-- Takes `room` more bytes, or any number if there is no limit. -/
  | limited (room : Option Nat) (flushFails : Bool) (arrived : Buffer)
  /-- A sink of the host, of which `past` was asked before. -/
  | host (writer : Writer) (past : List SinkRequest) (arrived : Buffer)

namespace Sink

/-- What has arrived. -/
def arrived : Sink → Buffer
  | direct arrived => arrived
  | buffered _ arrived => arrived
  | limited _ _ arrived => arrived
  | host _ _ arrived => arrived

/-- Writes bytes.  A sink without enough room takes those that fit and refuses the others. -/
def write (bytes : ByteArray) : Sink → Option SinkError × Sink
  | direct arrived => (none, direct (arrived.write bytes))
  | buffered waiting arrived => (none, buffered (waiting.write bytes) arrived)
  | limited none flushFails arrived => (none, limited none flushFails (arrived.write bytes))
  | limited (some room) flushFails arrived =>
    if bytes.size ≤ room then
      (none, limited (some (room - bytes.size)) flushFails (arrived.write bytes))
    else
      (some .full, limited (some 0) flushFails (arrived.write (bytes.extract 0 room)))
  | host writer past arrived =>
    let answer := writer.write past bytes
    (answer.refusal, host writer (.write bytes :: past) (arrived.write answer.arriving))

/-- Passes on what waits. -/
def flush : Sink → Option SinkError × Sink
  | direct arrived => (none, direct arrived)
  | buffered waiting arrived => (none, buffered .empty (arrived.write waiting.bytes))
  | limited room flushFails arrived =>
    (if flushFails then some .flushFailed else none, limited room flushFails arrived)
  | host writer past arrived =>
    let answer := writer.flush past
    (answer.refusal, host writer (.flush :: past) (arrived.write answer.arriving))

/-- What has arrived, as text, and the sink without it. -/
def take : Sink → String × Sink
  | direct arrived => (arrived.contents, direct .empty)
  | buffered waiting arrived => (arrived.contents, buffered waiting .empty)
  | limited room flushFails arrived => (arrived.contents, limited room flushFails .empty)
  | host writer past arrived => (arrived.contents, host writer past .empty)

end Sink

end LoxLang
