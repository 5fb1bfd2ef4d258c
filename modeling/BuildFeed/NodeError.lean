import BuildFeed.Event.Basic

namespace BuildFeed

structure ProjectError where
  message : Option String := none
  projectFile : Option String := none
  span : Span := {}
  subcategory : Option String := none
  code : Option String := none
  help : Option String := none
  logged : Bool := false
  deriving DecidableEq, Inhabited

structure LoggerError where
  message : Option String := none
  inner : Option String := none
  event : Option Event := none
  errorCode : Option String := none
  help : Option String := none
  initialization : Bool := false
  deriving DecidableEq, Inhabited

def around (before : String) (part : Option String) (after : String) : String :=
  match part.filter (· ≠ "") with
  | some part => before ++ part ++ after
  | none => ""

def ProjectError.text (e : ProjectError) : String :=
  around "" e.projectFile (e.span.location ++ ": ") ++ around "" e.subcategory " " ++ "error" ++
    around " " e.code "" ++ ": " ++ e.message.getD ""

def LoggerError.text (e : LoggerError) : String :=
  e.message.getD ""

end BuildFeed
