/-!
# Journals

What the library has to tell about its work is a journal: texts in the order
in which they arose, each with a level.
-/

namespace ChartParsing

inductive Level where
  | trace
  | debug
  | warn
  deriving DecidableEq, Repr

structure Entry where
  level : Level
  text : String
  deriving DecidableEq, Repr

abbrev Journal := Array Entry

end ChartParsing
