import Praxec.Json.Value

namespace Praxec

open Json

inductive FailReason where
  | cancelled | timedOut | guardUnmet | error
deriving DecidableEq

def FailReason.asStr : FailReason → String
  | .cancelled => "cancelled"
  | .timedOut => "timed_out"
  | .guardUnmet => "guard_unmet"
  | .error => "error"

inductive MissionStatus where
  | running
  | waiting
  | succeeded
  | failed (reason : FailReason)
deriving DecidableEq

namespace MissionStatus

def asStr : MissionStatus → String
  | .running => "running"
  | .waiting => "waiting"
  | .succeeded => "succeeded"
  | .failed _ => "failed"

def reason : MissionStatus → Option FailReason
  | .failed r => some r
  | _ => none

def isResolved : MissionStatus → Bool
  | .succeeded | .failed _ => true
  | _ => false

def toResult (status : MissionStatus) : Value :=
  .object ([("status", .string status.asStr)] ++
    status.reason.toList.map fun r => ("reason", .string r.asStr))

end MissionStatus

inductive TerminalOutcome where
  | success | failure
deriving DecidableEq

def TerminalOutcome.fromToken (token : String) : Option TerminalOutcome :=
  if token = "success" then some .success else if token = "failure" then some .failure else none

inductive StatusHint where
  | executed | failed | rejected | cancelled | timedOut | started | waitingOnLock | waitingOnSubworkflow
  | waitingOnAgentAwait | waitingForAction
deriving DecidableEq

def deriveMissionStatus (hint : StatusHint) (isTerminal : Bool) (terminalOutcome : Option TerminalOutcome)
    (outcomesMet awaitingHuman : Bool) : MissionStatus :=
  match hint with
  | .cancelled => .failed .cancelled
  | .timedOut => .failed .timedOut
  | .failed => .failed .error
  | _ =>
      if isTerminal then
        match terminalOutcome with
        | some .failure => .failed .guardUnmet
        | some .success => if outcomesMet then .succeeded else .failed .guardUnmet
        | none => .succeeded
      else match hint with
        | .waitingOnLock | .waitingOnSubworkflow | .waitingOnAgentAwait => .waiting
        | _ => if awaitingHuman then .waiting else .running

theorem isResolved_deriveMissionStatus (hint : StatusHint) (terminalOutcome : Option TerminalOutcome)
    (outcomesMet awaitingHuman : Bool) :
    (deriveMissionStatus hint true terminalOutcome outcomesMet awaitingHuman).isResolved := by
  rcases terminalOutcome with _ | (_ | _) <;> cases hint <;> cases outcomesMet <;> rfl

end Praxec
