import KudosJudge.RunReturns
import KudosJudge.WorkerServe

set_option autoImplicit false

/-!
The template answers a failed `clone` with -2, and `jug_runner_run` stops for -1
only. It goes on without a watcher: `waitpid(-2)` fails, nobody takes the input
out of `in_pipe`, and `watcher_result` is never assigned.
-/
namespace KudosJudge.RunSystem
open CompareOutput Results SandboxWatcher RunnerLoop Runs WorkerServe

variable {cfg : Config}

section

variable {s : Sys} {act : Act}

end

end KudosJudge.RunSystem
