import AllPairs.Planning.Greedy
import AllPairs.Planning.Planner
import AllPairs.Planning.RoundRobin

/-!
The planning algorithms that can be chosen by name.
-/

namespace AllPairs

/-- A planning algorithm. -/
inductive Algorithm where
  | greedy
  | roundRobin
deriving DecidableEq

namespace Algorithm

/-- Every algorithm. -/
def all : List Algorithm := [greedy, roundRobin]

/-- The name of an algorithm. -/
def name : Algorithm → String
  | greedy => "greedy"
  | roundRobin => "round-robin"

/-- The algorithm with the given name. -/
def ofName? (name : String) : Option Algorithm :=
  all.find? fun algorithm => algorithm.name == name

/-- The schedule that an algorithm makes of a workload. -/
def plan (config : PlanConfig) : Algorithm → Workload → Schedule
  | greedy => Greedy.plan config.maxWidth
  | roundRobin => RoundRobin.plan config.maxWidth

/-- The planner of an algorithm. -/
def planner (config : PlanConfig) (algorithm : Algorithm) : Planner Unit :=
  .pure algorithm.name (algorithm.plan config)

/-- What planning a workload tells. -/
def events (config : PlanConfig) : Algorithm → Workload → List Event
  | greedy => Greedy.events config.maxWidth
  | roundRobin => RoundRobin.events config.maxWidth

end Algorithm
end AllPairs
