import AnalysisRunner.Pool.Work
import AnalysisRunner.Text.Quoted

/-!
# Tasks

A task is a name, an input, and the work to be done on the input.
-/

namespace AnalysisRunner

/-- A task on an input of type `ι` that yields an output of type `ο`. -/
structure Task (ι ο : Type) where
  id : String
  input : ι
  work : ι → Work ο

namespace Task

/-- The work of a task on its input. -/
def run {ι ο : Type} (t : Task ι ο) : Work ο :=
  t.work t.input

/-- What is shown of a task on a text: all but its work. -/
def description {ο : Type} (t : Task String ο) : String :=
  "PoolTask \x7b id: " ++ Quoted.text t.id ++ ", input: " ++ Quoted.text t.input ++ ", .. \x7d"

end Task
end AnalysisRunner
