import LexicalPaths.Display.Event

/-!
# Log records

What is logged: a message with a level, and attributes that may describe an event.
-/

namespace LexicalPaths

/-- How serious a record is; higher numbers are more serious. -/
abbrev Level := Int

namespace Level

def debug : Level := 10

def info : Level := 20

/-- What looks wrong but does not stop the program. -/
def warning : Level := 30

def error : Level := 40

def critical : Level := 50

def name (level : Level) : Text :=
  if level = 0 then "NOTSET".toList
  else if level = debug then "DEBUG".toList
  else if level = info then "INFO".toList
  else if level = warning then "WARNING".toList
  else if level = error then "ERROR".toList
  else if level = critical then "CRITICAL".toList
  else "Level ".toList ++ (toString level).toList

end Level

/-- A log record. -/
structure LogRecord where
  level : Level
  message : Text
  attributes : Display.Attributes

/-- Where log records go: to the console from a level on, and to a file from another level on. -/
structure Logger where
  console : Level
  file? : Option (List Text × Level)

namespace Logger

def name : Text := "lexpath".toList

def threshold : Level := Level.debug

end Logger

/-- The line of a record in a log file, after the time. -/
def LogRecord.line (time : Text) (record : LogRecord) : Text :=
  time ++ " - ".toList ++ Logger.name ++ " - ".toList ++ Level.name record.level ++ " - ".toList ++
    record.message ++ ['\n']

end LexicalPaths
