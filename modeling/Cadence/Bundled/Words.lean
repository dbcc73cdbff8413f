/-
  The BUNDLED WORDS — commands and queries that every host wants.

  Pausing, aliases, timers, lists, the journal, the ignore list, jumps and a command that writes to
  the host's output.  Here are only their names; what they do stands in `Bundled.Handlers`.
-/
namespace Cadence.Bundled

/-- The bundled commands. -/
inductive Command where
  /-- Writes a message. -/
  | sysmsg
  /-- Suspends the script for a while. -/
  | pause
  /-- Gives a number a name. -/
  | setAlias
  /-- Takes a name away from its number. -/
  | unsetAlias
  /-- Starts a timer. -/
  | setTimer
  /-- Removes a timer. -/
  | removeTimer
  /-- Makes a list. -/
  | createList
  /-- Removes a list. -/
  | removeList
  /-- Empties a list. -/
  | clearList
  /-- Puts a value into a list. -/
  | pushList
  /-- Takes a value out of a list. -/
  | popList
  /-- Empties the journal. -/
  | clearJournal
  /-- Waits for a text in the journal. -/
  | waitForJournal
  /-- Puts an object on the ignore list. -/
  | ignoreObject
  /-- Empties the ignore list. -/
  | clearIgnoreList
  /-- Jumps to a line. -/
  | goto
  /-- Goes back to where the last jump came from. -/
  | return_
deriving Repr, DecidableEq

/-- The bundled queries. -/
inductive Query where
  /-- Does a name stand for a number? -/
  | findAlias
  /-- Has a timer run out? -/
  | timerExpired
  /-- Is there a timer? -/
  | timerExists
  /-- Is a value in a list? -/
  | inList
  /-- Is there a list? -/
  | listExists
  /-- How many values has a list? -/
  | listCount
  /-- Is a text in the journal? -/
  | inJournal
  /-- Is an object on the ignore list? -/
  | ignored
  /-- Always true. -/
  | true_
  /-- Always false. -/
  | false_
deriving Repr, DecidableEq

/-- The words of the commands. -/
def commands : List (String × Command) :=
  [("sysmsg", .sysmsg), ("pause", .pause), ("setalias", .setAlias), ("unsetalias", .unsetAlias),
   ("settimer", .setTimer), ("removetimer", .removeTimer), ("createlist", .createList),
   ("removelist", .removeList), ("clearlist", .clearList), ("pushlist", .pushList),
   ("poplist", .popList), ("clearjournal", .clearJournal), ("waitforjournal", .waitForJournal),
   ("ignoreobject", .ignoreObject), ("clearignorelist", .clearIgnoreList), ("goto", .goto),
   ("return", .return_)]

/-- The words of the queries. -/
def queries : List (String × Query) :=
  [("findalias", .findAlias), ("timerexpired", .timerExpired), ("timerexists", .timerExists),
   ("inlist", .inList), ("listexists", .listExists), ("listcount", .listCount),
   ("injournal", .inJournal), ("ignored", .ignored), ("true", .true_), ("false", .false_)]

end Cadence.Bundled
