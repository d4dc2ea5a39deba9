import GoEnum.Command.Request

namespace GoEnum.Command

open Disk

/-- What the reader of arguments does instead of a run: it shows help, or it finds fault with
them. -/
structure Stop where
  exitCode : Nat
  output : String
  errors : String
  deriving DecidableEq, Repr

inductive Outcome
  | done
  | failed (f : Failure)
  | stopped (s : Stop)
  deriving DecidableEq, Repr

namespace Outcome

def exitCode : Outcome → Nat
  | .done => 0
  | .failed _ => 1
  | .stopped s => s.exitCode

def output : Outcome → String
  | .stopped s => s.output
  | _ => ""

def errors : Outcome → String
  | .done => ""
  | .failed f => f.message ++ "\n"
  | .stopped s => s.errors

end Outcome

def run {m : Type → Type} [Monad m] (parse : List String → Except Stop Options)
    (fs : FileSystem m) (args : List String) : m Outcome :=
  match parse args with
  | .error s => return .stopped s
  | .ok o => do
    match ← (execute fs o args).run with
    | .ok () => return .done
    | .error f => return .failed f

end GoEnum.Command
