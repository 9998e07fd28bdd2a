import Localize.Text.Search

/-!
# Arguments of a command

Words that begin with a hyphen are options, by a long name or by one letter; letters can be joined
behind one hyphen. The value of an option is the next word whatever it looks like, what follows an
equals sign behind a long name, or what follows a letter in the same word. Two hyphens alone end the
options. Every other word is an argument, and a command takes a fixed number of them.
-/

namespace Localize.Command

/-- An option with its long name and perhaps a letter. -/
structure Choice where
  name : Text
  letter : Option Char
  takesValue : Bool
  deriving Repr

/-- What words a command takes; `mixed` says whether options may follow arguments. -/
structure Usage where
  arguments : Nat
  choices : List Choice
  mixed : Bool
  deriving Repr

/-- The words of a command: its arguments, and its options in the order given. -/
structure Given where
  arguments : List Text
  options : List (Text × Text)
  deriving Repr

namespace Given

def empty : Given := ⟨[], []⟩

def addArgument (word : Text) (g : Given) : Given := { g with arguments := word :: g.arguments }

def addOptions (options : List (Text × Text)) (g : Given) : Given :=
  { g with options := options ++ g.options }

def has (g : Given) (name : String) : Bool := g.options.any (·.1 = name.toList)

/-- The values of an option that may be given more than once. -/
def values (g : Given) (name : String) : List Text :=
  (g.options.filter (·.1 = name.toList)).map (·.2)

/-- The value given last. -/
def value? (g : Given) (name : String) : Option Text := (g.values name).getLast?

end Given

namespace Usage

def named? (u : Usage) (name : Text) : Option Choice := u.choices.find? (·.name = name)

def lettered? (u : Usage) (c : Char) : Option Choice := u.choices.find? (·.letter = some c)

/-- What a word says: options with their values and perhaps one that waits for the next word. -/
structure Reading where
  options : List (Text × Text)
  waiting : Option Text

def readLetters (u : Usage) : Text → Option Reading
  | [] => some ⟨[], none⟩
  | c :: rest =>
    match u.lettered? c with
    | none => none
    | some choice =>
      if choice.takesValue then
        some (if rest.isEmpty then ⟨[], some choice.name⟩ else ⟨[(choice.name, rest)], none⟩)
      else
        (readLetters u rest).map fun r => { r with options := (choice.name, []) :: r.options }

def readOption (u : Usage) (word : Text) : Option Reading :=
  let (name, value) := match Text.cutAt? ['='] word with
    | some (name, value) => (name, some value)
    | none => (word, none)
  match u.named? name, value with
  | some choice, some value => if choice.takesValue then some ⟨[(name, value)], none⟩ else none
  | some choice, none => some (if choice.takesValue then ⟨[], some name⟩ else ⟨[(name, [])], none⟩)
  | none, _ => if Text.startsWith "--".toList word then none else u.readLetters (word.drop 1)

/-- Reads words, the first of them being the value of a waiting option if there is one. -/
def readWords (u : Usage) (waiting : Option Text) : List Text → Option Given
  | [] => if waiting.isSome then none else some .empty
  | word :: rest =>
    match waiting with
    | some name => (readWords u none rest).map (.addOptions [(name, word)])
    | none =>
      if word = "--".toList then some ⟨rest, []⟩
      else if word.head? = some '-' && word ≠ ['-'] then
        match u.readOption word with
        | none => none
        | some r => (readWords u r.waiting rest).map (.addOptions r.options)
      else if u.mixed then (readWords u none rest).map (.addArgument word)
      else some ⟨word :: rest, []⟩

/-- Reads the words of a command that takes a fixed number of arguments. -/
def read (u : Usage) (words : List Text) : Option Given :=
  match u.readWords none words with
  | some g => if g.has "--help" || g.arguments.length = u.arguments then some g else none
  | none => none

end Usage

/-- An option without a value. -/
def switch (name : String) (letter : Option Char) : Choice := ⟨name.toList, letter, false⟩

/-- An option with a value. -/
def setting (name : String) (letter : Option Char) : Choice := ⟨name.toList, letter, true⟩

/-- The usage of a command; every command explains itself. -/
def usage (arguments : Nat) (choices : List Choice) : Usage :=
  ⟨arguments, choices ++ [switch "--help" none], true⟩

/-- The usage of a group of commands, whose options come before the name of the command. -/
def groupUsage (choices : List Choice) : Usage := ⟨0, choices ++ [switch "--help" none], false⟩

end Localize.Command
