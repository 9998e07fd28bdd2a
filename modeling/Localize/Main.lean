import Localize.Command.Program
import Localize.Volume.Listing
import Std.Time.DateTime.Timestamp

/-!
# The command line

The working folder with everything below it is read into a volume, the command is carried out on it,
and what the command has changed is written back. A question that no line has answered yet is shown
and one more line is read; then the command starts again on the volume as it was read, with all the
lines so far, and what has been shown already is not shown again. No provider can be reached from
here, so a string is translated only where the memory or the glossary knows it.
-/

namespace Localize.CommandLine

open Command

/-! ### The working folder -/

/-- What a file holds: a text wherever its bytes are the encoding of one. -/
def contentOf (bytes : ByteArray) : Content :=
  match String.fromUTF8? bytes with
  | some t => .text t.toList
  | none => .bytes bytes.toList

/-- The entries of a folder, each with what the reader makes of it. What cannot be read is left
out. -/
partial def readFolder (entries : List IO.FS.DirEntry) : IO Entries := do
  let mut read : Entries := []
  for entry in entries do
    let tree? ← try
        if ← entry.path.isDir then
          pure (some (Tree.folder (← readFolder (← entry.path.readDir).toList)))
        else pure (some (Tree.file (contentOf (← IO.FS.readBinFile entry.path))))
      catch _ => pure none
    if let some tree := tree? then read := read ++ [(entry.fileName.toList, tree)]
  return read

/-- Puts what is new or changed into the working folder. -/
def write (path : String) : Option Content → IO Unit
  | none => IO.FS.createDirAll path
  | some (.text t) => IO.FS.writeFile path (String.ofList t)
  | some (.bytes b) => IO.FS.writeBinFile path (ByteArray.mk b.toArray)

def remove (path : String) : IO Unit :=
  if path.endsWith "/" then IO.FS.removeDirAll path else IO.FS.removeFile path

/-- Brings the working folder from one state to the other. -/
def writeBack (before after : Volume) : IO Unit := do
  for path in (after.removalsSince before).reverse do
    remove (String.ofList path)
  for (path, content) in after.changesSince before do
    write (String.ofList path) content

/-! ### The environment -/

def readVariable (name : Text) : IO Environment := do
  match ← IO.getEnv (String.ofList name) with
  | some value => return [(name, value.toList)]
  | none => return []

/-- The variables that a command may look at: where the settings are, and the keys of the providers
that the settings name, be it those of a file among the words of the command. -/
def environment (v : Volume) (words : List Text) : IO Environment := do
  let mut env ← readVariable "POLYGOT_CONFIG".toList
  for path in Settings.path env :: words.map Path.ofText do
    if let .ok settings := Settings.load v path then
      if let .str provider := settings.provider then
        for (name, value) in ← readVariable (Settings.keyVariable provider) do
          env := Table.insert env name value
  return env

/-! ### Commands -/

/-- The other side of an exchange that never takes place. -/
def noProvider : Provider.Endpoint Unit := fun s _ => (.unreachable "no connection".toList, s)

def shown : Line → String
  | .text t => String.ofList t
  | .row cells => String.intercalate "  " (cells.map String.ofList)

/-- Shows lines; the last one stays open for an answer where it is a question. -/
def display (lines : List Line) (asks : Bool) : IO Unit := do
  let out ← IO.getStdout
  match asks, lines.getLast? with
  | true, some question =>
    lines.dropLast.forM fun line => out.putStrLn (shown line)
    out.putStr (shown question ++ " ")
  | _, _ => lines.forM fun line => out.putStrLn (shown line)
  out.flush

def readLine? : IO (Option Text) := do
  let line ← (← IO.getStdin).getLine
  if line.isEmpty then return none
  return some ((Text.splitOn '\n' line.toList).headD [])

/-- Carries out a command, reading one line more as long as a question has found none. -/
partial def converse (words : List Text) (start : Session Unit) (displayed : Nat) :
    IO (Except Stop Unit × Session Unit) := do
  let (ended, s) := run noProvider words start
  let lines := s.printed.drop displayed
  match ended with
  | .error .unanswered =>
    display lines true
    match ← readLine? with
    | some line => converse words { start with input := start.input ++ [line] } s.printed.length
    | none =>
      IO.println ""
      return (ended, s)
  | _ =>
    display lines false
    return (ended, s)

end Localize.CommandLine

open Localize CommandLine in
def main (args : List String) : IO UInt32 := do
  let words := args.map String.toList
  let v := Volume.ofEntries (← readFolder (← (← IO.currentDir).readDir).toList)
  let now := (← Std.Time.Timestamp.now).toMillisecondsSinceUnixEpoch.toInt.toNat
  let env ← environment v words
  let (ended, s) ← converse words ⟨v, now, env, (), [], [], []⟩ 0
  writeBack v s.volume
  match ended with
  | .error (.fault f) =>
    IO.eprintln <| String.ofList <|
      f.message?.getD "a value has not the shape that its use needs".toList
  | _ => if Command.exitCode ended = 2 then IO.eprintln "these words make no command"
  return (Command.exitCode ended).toUInt32
