import Mathlib.Data.Int.Notation

set_option autoImplicit false

/-!
The enumerations `jug_verdict_enum` of `def.h` and `jug_sandbox_result` of
`sandbox.h`, with the numbers under which results travel in exit statuses.
-/
namespace KudosJudge.Results

inductive Verdict where
  | accepted
  | wrong
  | compileError
  | timelimit
  | memlimit
  | outputlimit
  | runtime
  | internal
deriving DecidableEq, Repr

/-- The enumeration is an `int`; `other` are the values without a name that can
end up in it. -/
inductive SandboxResult where
  | correct
  | wrong
  | timelimit
  | wallTimelimit
  | memlimit
  | outputlimit
  | runtime
  | pipeError
  | compError
  | unknown
  | other (value : ℤ)
deriving DecidableEq, Repr

namespace SandboxResult

def toInt : SandboxResult → ℤ
  | correct => 0
  | wrong => 1
  | timelimit => 2
  | wallTimelimit => 3
  | memlimit => 4
  | outputlimit => 5
  | runtime => 6
  | pipeError => 7
  | compError => 8
  | unknown => 9
  | other value => value

def ofInt : ℤ → SandboxResult
  | 0 => correct
  | 1 => wrong
  | 2 => timelimit
  | 3 => wallTimelimit
  | 4 => memlimit
  | 5 => outputlimit
  | 6 => runtime
  | 7 => pipeError
  | 8 => compError
  | 9 => unknown
  | value => other value

end SandboxResult

end KudosJudge.Results
