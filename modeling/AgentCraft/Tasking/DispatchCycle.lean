import AgentCraft.Tasking.World

/-!
# One cycle of the dispatcher

`dispatch_once` with nothing else going on. The scan returns the oldest pending rounds up to the batch
size, whoever they belong to, and the running limit of the owner is looked at only when a round is
claimed. A cycle claims something exactly when the batch itself holds a round whose owner is below the
limit; the rounds of owners at their limit can fill the batch and keep the others out of it.
-/

namespace AgentCraft.Tasking

open AgentCraft.Relational AgentCraft.Transition

variable {cfg : Settings} {db db' : Db} {iid : InstanceId} {c : RoundCandidate}
  {cs : List RoundCandidate}

end AgentCraft.Tasking
