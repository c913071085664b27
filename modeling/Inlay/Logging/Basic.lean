import Inlay.Logging.Record

/-!
# The state of logging

The root logger has a level and handlers. A handler of our own puts records into the queue of a
listener; a running listener writes them to its sinks. Handlers of others are left alone.
`ours` counts the handlers of our own, which `detach` removes.
-/

namespace Inlay

structure LogFile where
  path : Path
  template : LogTemplate
  /-- The form of times; the usual one shows the clock. -/
  timeFormat : Text
  /-- The size at which the file is put aside, if it is positive. -/
  maxBytes : Int
  backups : Nat
  deriving DecidableEq

inductive LogTarget where
  | console (template : LogTemplate)
  | file (file : LogFile)
  deriving DecidableEq

structure LogSink where
  level : Int
  target : LogTarget
  deriving DecidableEq

inductive LogHandler where
  | foreign (name : String)
  | queue (listener : Nat)
  deriving DecidableEq

def LogHandler.isOurs : LogHandler → Bool
  | foreign _ => false
  | queue _ => true

/-- The state of logging. -/
structure Logging where
  level : Int
  handlers : List LogHandler
  stored : Option Nat
  running : List (Nat × List LogSink)
  started : Nat
  configured : Bool
  /-- Records in queues, oldest first. -/
  queued : List (Nat × LogRecord)
  deriving DecidableEq

namespace Logging

def initial : Logging where
  level := Level.debug
  handlers := []
  stored := none
  running := []
  started := 0
  configured := false
  queued := []

def passes (l : Logging) (record : LogRecord) : Bool :=
  decide (0 < record.level) && decide (l.level ≤ record.level)

def enqueue (l : Logging) (record : LogRecord) : Logging :=
  let queues := l.handlers.filterMap fun
    | .queue listener => some listener
    | .foreign _ => none
  { l with queued := l.queued ++ queues.map (·, record) }

def ours (l : Logging) : Nat :=
  l.handlers.countP (·.isOurs)

def sinksOf? (l : Logging) (listener : Nat) : Option (List LogSink) :=
  l.running.lookup listener

def sinks (l : Logging) : List LogSink :=
  (l.stored.bind l.sinksOf?).getD []

def isListening (l : Logging) : Bool :=
  (l.stored.bind l.sinksOf?).isSome

def detach (l : Logging) : Logging :=
  { l with handlers := l.handlers.filter (!·.isOurs) }

def stop (l : Logging) : Logging :=
  match l.stored with
  | some listener =>
    { l with stored := none, running := l.running.filter fun (n, _) => n ≠ listener }
  | none => l

def listen (l : Logging) (sinks : List LogSink) : Logging :=
  { l with
    handlers := l.handlers ++ [.queue l.started]
    stored := some l.started
    running := (l.started, sinks) :: l.running
    started := l.started + 1
    configured := true }

def shutDown (l : Logging) : Logging :=
  { l.stop.detach with configured := false }

/-- Logging with another level and without a listener, as it is before it gets sinks. -/
def clear (l : Logging) (level : Int) : Logging :=
  { l with level := level }.detach.stop

/-- The records in queues of running listeners, each with the sinks it goes to, and logging
without them. -/
def deliveries (l : Logging) : List (LogRecord × LogTarget) × Logging :=
  let out := l.queued.flatMap fun (listener, record) =>
    ((l.sinksOf? listener).getD []).filterMap fun sink =>
      if sink.level ≤ record.level then some (record, sink.target) else none
  (out, { l with queued := [] })

end Logging

end Inlay
