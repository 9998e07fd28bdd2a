import Localize.Journal.Basic
import Localize.Proofs.Text.Basic

/-!
# What a logger writes

A logger that has been set to a mode, on whatever way, drops the records below the level of the mode
and writes each of the others once to the console and once to the file. Two modes are told apart by
what their loggers write, unless they have the same level.
-/

namespace Localize

namespace Journal

variable {mode mode' : Json} {name : Text} {j : Journal} {v : Volume} {level : Level}

/-! ### Levels -/

theorem levelOf_cases (mode : Json) :
    levelOf mode = debugLevel ∨ levelOf mode = infoLevel ∨ levelOf mode = silentLevel := by
  unfold levelOf
  split
  · exact .inl rfl
  · split
    · exact .inr (.inr rfl)
    · exact .inr (.inl rfl)

theorem debugLevel_le_levelOf (mode : Json) : debugLevel ≤ levelOf mode := by
  rcases levelOf_cases mode with h | h | h <;> rw [h] <;> decide

theorem levelOf_le_silentLevel (mode : Json) : levelOf mode ≤ silentLevel := by
  rcases levelOf_cases mode with h | h | h <;> rw [h] <;> decide

theorem isOff_iff : isOff mode = true ↔ levelOf mode = silentLevel := by
  rw [isOff, decide_eq_true_eq, levelOf]
  constructor
  · rintro rfl
    rfl
  · intro h
    split at h
    · cases h
    · split at h
      · assumption
      · cases h

/-! ### Loggers in a mode -/

namespace Logger

/-- A logger has been set to a mode. In the mode `off` it has no outlets, or the console only. In
any other it has the file and the console, and the file is last where it has been taken away and
added again. -/
inductive SetTo (mode : Json) : Logger → Prop
  | bare (hoff : isOff mode = true) : SetTo mode (.bare mode)
  | muted (hoff : isOff mode = true) : SetTo mode ⟨levelOf mode, [.console (levelOf mode)]⟩
  | fileFirst (hon : isOff mode = false) :
      SetTo mode ⟨levelOf mode, [.file, .console (levelOf mode)]⟩
  | fileLast (hon : isOff mode = false) :
      SetTo mode ⟨levelOf mode, [.console (levelOf mode), .file]⟩

variable {l : Logger}

theorem setTo_ofMode (mode : Json) : (ofMode mode).SetTo mode := by
  unfold ofMode
  cases h : isOff mode with
  | true => exact .bare h
  | false => exact .fileFirst h

theorem ofMode_of_off (hoff : isOff mode = true) : ofMode mode = ⟨silentLevel, []⟩ := by
  rw [ofMode, hoff, if_pos rfl, bare, isOff_iff.mp hoff]

theorem outlets_ofMode_ne_nil (hon : isOff mode = false) : (ofMode mode).outlets ≠ [] := by
  rw [ofMode, hon, if_neg Bool.false_ne_true]
  exact List.cons_ne_nil _ _

/-- A logger with outlets is set to a mode by adjusting it, and keeps an outlet. -/
theorem SetTo.adjusted (h : l.SetTo mode) (houtlets : l.outlets ≠ []) (mode' : Json) :
    (l.adjusted mode').SetTo mode' ∧ (l.adjusted mode').outlets ≠ [] := by
  unfold Logger.adjusted
  cases hoff : isOff mode' with
  | true =>
    cases h with
    | bare => exact absurd rfl houtlets
    | muted | fileFirst | fileLast => exact ⟨.muted hoff, List.cons_ne_nil _ _⟩
  | false =>
    cases h with
    | bare => exact absurd rfl houtlets
    | fileFirst => exact ⟨.fileFirst hoff, List.cons_ne_nil _ _⟩
    | muted | fileLast => exact ⟨.fileLast hoff, List.cons_ne_nil _ _⟩

end Logger

/-! ### Records -/

/-- The first of the names upward is the name itself. -/
theorem loggerFor?_of_find? {l : Logger} (h : Table.find? j.loggers name = some l) :
    j.loggerFor? name = some l := by
  have hpositive : (Text.splitOn '.' name).length ≠ 0 := fun h =>
    Text.splitOn_ne_nil '.' name (List.eq_nil_of_length_eq_zero h)
  obtain ⟨n, hn⟩ := Nat.exists_eq_succ_of_ne_zero hpositive
  have hself : (Text.splitOn '.' name).take (Text.splitOn '.' name).length = _ := List.take_length
  rw [loggerFor?, namesUpward, hn, List.range_succ_eq_map, List.map_cons, ← hn, Nat.sub_zero,
    hself, Text.join_splitOn, List.findSome?_cons, h]

/-- What the console shows and the volume holds when a message has been logged under a name. -/
def logged (j : Journal) (v : Volume) (name : Text) (level : Level) (message : Text) :
    Text × Volume :=
  let (j, v) := j.log v name level message
  (j.console, v)

namespace Logger.SetTo

variable {j' : Journal} {l l' : Logger}

/-- A logger that has been set to a mode writes the records from the level of the mode on, each once
to the console and once to the file. -/
theorem logged_eq (h : l.SetTo mode) (hl : Table.find? j.loggers name = some l) (v : Volume)
    (hlevel : level < silentLevel) (message : Text) : j.logged v name level message =
      if level < levelOf mode then (j.console, v)
      else (j.console ++ line name level message, appendLine v (line name level message)) := by
  have hsame : l.level = levelOf mode := by cases h <;> rfl
  unfold logged log
  rw [loggerFor?_of_find? hl, Option.getD_some]
  dsimp only
  rw [hsame]
  by_cases hdropped : level < levelOf mode
  · rw [if_pos hdropped, if_pos hdropped]
  · rw [if_neg hdropped, if_neg hdropped]
    have hdebug : debugLevel ≤ level :=
      Nat.le_trans (debugLevel_le_levelOf mode) (Nat.not_lt.mp hdropped)
    have hsilent (hoff : isOff mode = true) : False :=
      hdropped (isOff_iff.mp hoff ▸ hlevel)
    cases h with
    | bare hoff | muted hoff => exact (hsilent hoff).elim
    | fileFirst | fileLast => simp [emit, Outlet.threshold, hdebug, Nat.not_lt.mp hdropped]

theorem le_of_logged_eq (h : l.SetTo mode) (hl : Table.find? j.loggers name = some l)
    (h' : l'.SetTo mode') (hl' : Table.find? j'.loggers name = some l')
    (hconsole : j.console = j'.console) (hsame : ∀ level < silentLevel, ∀ message v,
      j.logged v name level message = j'.logged v name level message) :
    levelOf mode' ≤ levelOf mode := by
  refine Nat.not_lt.mp fun hlt => ?_
  -- a record of the lower level is written by one of the loggers and dropped by the other
  have hlevel : levelOf mode < silentLevel := Nat.lt_of_lt_of_le hlt (levelOf_le_silentLevel mode')
  have hboth := congrArg Prod.fst (hsame _ hlevel [] ⟨[], []⟩)
  rw [h.logged_eq hl _ hlevel, h'.logged_eq hl' _ hlevel, if_neg (Nat.lt_irrefl _), if_pos hlt,
    hconsole] at hboth
  simp [line] at hboth

/-- Two loggers write the same exactly if the modes they have been set to have the same level. -/
theorem logged_eq_iff (h : l.SetTo mode) (hl : Table.find? j.loggers name = some l)
    (h' : l'.SetTo mode') (hl' : Table.find? j'.loggers name = some l')
    (hconsole : j.console = j'.console) :
    (∀ level < silentLevel, ∀ message v,
      j.logged v name level message = j'.logged v name level message) ↔
      levelOf mode = levelOf mode' := by
  constructor
  · intro hsame
    refine Nat.le_antisymm (h'.le_of_logged_eq hl' h hl hconsole.symm ?_)
      (h.le_of_logged_eq hl h' hl' hconsole hsame)
    exact fun level hlevel message v => (hsame level hlevel message v).symm
  · intro hlevels level hlevel message v
    rw [h.logged_eq hl v hlevel, h'.logged_eq hl' v hlevel, hlevels, hconsole]

end Logger.SetTo

end Journal

end Localize
