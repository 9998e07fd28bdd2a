import Localize.Proofs.Glossary.Atomic
import Localize.Proofs.Memory.Atomic

/-!
# The stores of a project on its volume

A memory and a glossary share a volume whose medium may refuse some of the writes. Whatever the two
are asked to do in whatever order, each task leaves in every file what was there before or a whole
document: that of the store as it was behind one of the task's steps, in the store's own file, or
the one that is exported, in the file named for it. A task that goes item by item has a step for
each item, every other task is one step. A write that fails is the error that its task ends in.
-/

namespace Localize

/-- A memory and a glossary with the volume that holds their files. -/
structure Stores where
  memory : Memory
  glossary : Glossary
  volume : Volume

namespace Stores

/-- Something asked of one of the stores. -/
inductive Task where
  | ofMemory (task : Memory.Task)
  | ofGlossary (task : Glossary.Task)

namespace Task

def perform (now : Nat) (s : Stores) : Task → Except Failure Unit × Stores
  | .ofMemory task =>
    let (r, memory, volume) := task.perform now (s.memory, s.volume)
    (r, { s with memory, volume })
  | .ofGlossary task =>
    let (r, glossary, volume) := task.perform now (s.glossary, s.volume)
    (r, { s with glossary, volume })

/-- The volume with the folders that a task makes first. -/
def prepared (s : Stores) : Task → Volume
  | .ofMemory task => task.prepared (s.memory, s.volume)
  | .ofGlossary task => task.prepared (s.glossary, s.volume)

/-- The documents that a task asks to write, in turn. -/
def writings (now : Nat) (s : Stores) : Task → List Writing
  | .ofMemory task => task.writings now (s.memory, s.volume)
  | .ofGlossary task => task.writings now (s.glossary, s.volume)

end Task

/-- The stores after tasks at their times. -/
def run (s : Stores) (tasks : List (Nat × Task)) : Stores :=
  tasks.foldl (fun s t => (t.2.perform t.1 s).2) s

variable {s : Stores} {now : Nat} {task : Task}

theorem run_concat (s : Stores) (tasks : List (Nat × Task)) (now : Nat) (task : Task) :
    s.run (tasks ++ [(now, task)]) = (task.perform now (s.run tasks)).2 := by
  rw [run, List.foldl_append]
  rfl

theorem Task.writes (task : Task) (now : Nat) (s : Stores) :
    Volume.Writes (task.writings now s) (task.prepared s) (task.perform now s).1
      (task.perform now s).2.volume := by
  cases task with
  | ofMemory task => exact task.writes now (s.memory, s.volume)
  | ofGlossary task => exact task.writes now (s.glossary, s.volume)

end Stores

end Localize
