import Localize.Number.Reading

/-!
# Token counts

A translator reports its tokens under one of two sets of names and in whatever form; a count is
three whole numbers.
-/

namespace Localize.Batch

/-- Tokens read, tokens written, and both together. -/
structure TokenCount where
  input : Int
  output : Int
  total : Int
  deriving DecidableEq, Repr

namespace TokenCount

def zero : TokenCount := ⟨0, 0, 0⟩

def add (a b : TokenCount) : TokenCount :=
  ⟨a.input + b.input, a.output + b.output, a.total + b.total⟩

def fields (c : TokenCount) : Fields :=
  Json.record [("input", .int c.input), ("output", .int c.output), ("total", .int c.total)]

/-- One number of a report: under its first name, else under its second. -/
def reported (report : Fields) (first second : String) : Except Fault Int :=
  let value := (Table.find? report first.toList).getD
    ((Table.find? report second.toList).getD (.nat 0))
  if value.isSomething then value.toWhole else .ok 0

/-- The count of a report. A total that is missing or zero is the sum. -/
def ofReport (report : Json) : Except Fault TokenCount :=
  if report.isSomething then
    match report with
    | .obj fields => do
      let input ← reported fields "prompt_tokens" "input"
      let output ← reported fields "completion_tokens" "output"
      let total ← reported fields "total_tokens" "total"
      return ⟨input, output, if total = 0 then input + output else total⟩
    | _ => .error .noMember
  else .ok zero

end TokenCount

end Localize.Batch
