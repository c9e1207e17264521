/-!
Plain log filters: lists of directives separated by commas, each a level, a target, or a target with
a level after an equals sign. A platform that logs accepts others as well.
-/
namespace DebugArrays.LogFilter

def levels : List String :=
  ["trace", "debug", "info", "warn", "error", "off", "0", "1", "2", "3", "4", "5"]

/-- Level names are read in any case. -/
def isLevel (word : List Char) : Bool :=
  levels.contains (String.ofList (word.map Char.toLower))

def isTarget (word : List Char) : Bool :=
  !word.isEmpty && word.all fun c => c.isAlphanum || c == '_' || c == ':' || c == '-'

/-- The parts of a text between separators; a text without one is a single part. -/
def split (separator : Char) : List Char → List (List Char)
  | [] => [[]]
  | c :: rest =>
    match split separator rest with
    | [] => [[c]]
    | part :: parts => if c = separator then [] :: part :: parts else (c :: part) :: parts

def acceptsDirective (directive : List Char) : Bool :=
  match split '=' directive with
  | [word] => word.isEmpty || isLevel word || isTarget word
  | [target, level] => isTarget target && (level.isEmpty || isLevel level)
  | _ => false

def accepts (filter : String) : Bool :=
  (split ',' filter.toList).all acceptsDirective

end DebugArrays.LogFilter
