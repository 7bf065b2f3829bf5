import AnalysisRunner.Pool.Timeline

/-!
# The same work on many inputs

Each input becomes a task named by its index, so the outcomes can be put back into
the order of the inputs whatever the order in which they came.
-/

namespace AnalysisRunner
namespace Pool

variable {ι ο : Type}

/-- One task for each input, named by its index. -/
def indexedTasks (inputs : List ι) (work : Nat → ι → Work ο) : List (Task ι ο) :=
  inputs.zipIdx.map fun (input, index) => ⟨decimal index, input, work index⟩

/-- The outcomes of tasks that are named by an index below `count`, in that order. -/
def inOrder (count : Nat) (results : Table String (Outcome ο)) : List (String × Outcome ο) :=
  (List.range count).filterMap fun index =>
    (results.get? (decimal index)).map fun o => (decimal index, o)

/-- A timeline for work on many inputs. -/
def parallel (inputs : List ι) (work : Nat → ι → Work ο) (options : PoolOptions) :
    List (String × Outcome ο) × Timeline ι ο :=
  let start := Timeline.ofPool ((new options).addAll (indexedTasks inputs work)) 0
  match start.execute with
  | .ok (results, t) => (inOrder inputs.length results, t)
  | .error _ => ([], start)

end Pool
end AnalysisRunner
