import BuildFeed.Coded
import BuildFeed.Context
import BuildFeed.PropertyTable

namespace BuildFeed

inductive EventType where
  | custom
  | buildStarted
  | buildFinished
  | projectStarted
  | projectFinished
  | targetStarted
  | targetFinished
  | error
  | warning
  | message
  deriving DecidableEq, Repr, Inhabited

inductive TargetReason where
  | requested
  | beforeTargets
  | dependsOn
  | afterTargets
  deriving DecidableEq, Repr, Inhabited

inductive Importance where
  | high
  | normal
  | low
  deriving DecidableEq, Repr

instance : Inhabited Importance := ⟨.normal⟩

namespace EventType

def name : EventType → String
  | custom => "custom"
  | buildStarted => "build:started"
  | buildFinished => "build:finished"
  | projectStarted => "project:started"
  | projectFinished => "project:finished"
  | targetStarted => "target:started"
  | targetFinished => "target:finished"
  | error => "error"
  | warning => "warning"
  | message => "message"

instance : Coded EventType where
  title := "event type"
  all := [custom, buildStarted, buildFinished, projectStarted, projectFinished, targetStarted,
    targetFinished, error, warning, message]
  code
    | custom => 0
    | buildStarted => 1
    | buildFinished => 2
    | projectStarted => 3
    | projectFinished => 4
    | targetStarted => 5
    | targetFinished => 6
    | error => 7
    | warning => 8
    | message => 9
  mem_all a := by cases a <;> decide
  code_inj {a b} h := by revert h; cases a <;> cases b <;> decide

def isLazy (type : EventType) : Bool :=
  type ≠ custom

theorem isLazy_iff {type : EventType} : type.isLazy = true ↔ type ≠ custom :=
  decide_eq_true_iff

end EventType

namespace TargetReason

def name : TargetReason → String
  | requested => "none"
  | beforeTargets => "before-targets"
  | dependsOn => "depends-on"
  | afterTargets => "after-targets"

instance : Coded TargetReason where
  title := "target built reason"
  all := [requested, beforeTargets, dependsOn, afterTargets]
  code
    | requested => 0
    | beforeTargets => 1
    | dependsOn => 2
    | afterTargets => 3
  mem_all a := by cases a <;> decide
  code_inj {a b} h := by revert h; cases a <;> cases b <;> decide

end TargetReason

namespace Importance

def name : Importance → String
  | high => "high"
  | normal => "normal"
  | low => "low"

instance : Coded Importance where
  title := "message importance"
  all := [high, normal, low]
  code
    | high => 0
    | normal => 1
    | low => 2
  mem_all a := by cases a <;> decide
  code_inj {a b} h := by revert h; cases a <;> cases b <;> decide

end Importance

structure Span where
  line : Int32 := 0
  column : Int32 := 0
  endLine : Int32 := 0
  endColumn : Int32 := 0
  deriving DecidableEq, Inhabited

def Span.location (s : Span) : String :=
  if s.line = 0 then ""
  else if s.column = 0 then "(" ++ toString s.line ++ ")"
  else "(" ++ toString s.line ++ "," ++ toString s.column ++ ")"

structure ProjectStart where
  id : Int32 := 0
  parent : Option Context := none
  file : Option String := none
  targets : List String := []
  properties : Option PropertyTable := none
  deriving DecidableEq, Inhabited

structure ProjectFinish where
  file : Option String := none
  succeeded : Bool := false
  deriving DecidableEq, Inhabited

structure TargetStart where
  name : Option String := none
  projectFile : Option String := none
  file : Option String := none
  parent : Option String := none
  reason : TargetReason := .requested
  deriving DecidableEq, Inhabited

structure TargetFinish where
  name : Option String := none
  projectFile : Option String := none
  file : Option String := none
  succeeded : Bool := false
  deriving DecidableEq, Inhabited

structure Diagnostic where
  subcategory : Option String := none
  code : Option String := none
  file : Option String := none
  projectFile : Option String := none
  span : Span := {}
  helpLink : Option String := none
  deriving DecidableEq, Inhabited

structure Note where
  importance : Importance := .normal
  subcategory : Option String := none
  code : Option String := none
  file : Option String := none
  projectFile : Option String := none
  span : Span := {}
  deriving DecidableEq, Inhabited

inductive EventKind where
  | custom
  | buildStarted
  | buildFinished (succeeded : Bool)
  | projectStarted (start : ProjectStart)
  | projectFinished (finish : ProjectFinish)
  | targetStarted (start : TargetStart)
  | targetFinished (finish : TargetFinish)
  | error (diagnostic : Diagnostic)
  | warning (diagnostic : Diagnostic)
  | message (note : Note)
  deriving DecidableEq, Inhabited

namespace EventKind

def type : EventKind → EventType
  | custom => .custom
  | buildStarted => .buildStarted
  | buildFinished _ => .buildFinished
  | projectStarted _ => .projectStarted
  | projectFinished _ => .projectFinished
  | targetStarted _ => .targetStarted
  | targetFinished _ => .targetFinished
  | error _ => .error
  | warning _ => .warning
  | message _ => .message

def blank : EventType → EventKind
  | .custom => custom
  | .buildStarted => buildStarted
  | .buildFinished => buildFinished false
  | .projectStarted => projectStarted {}
  | .projectFinished => projectFinished {}
  | .targetStarted => targetStarted {}
  | .targetFinished => targetFinished {}
  | .error => error {}
  | .warning => warning {}
  | .message => message {}

def succeeded? : EventKind → Option Bool
  | buildFinished succeeded => some succeeded
  | projectFinished finish => some finish.succeeded
  | targetFinished finish => some finish.succeeded
  | _ => none

def diagnostic? : EventKind → Option Diagnostic
  | error d | warning d => some d
  | _ => none

def importance? : EventKind → Option Importance
  | message note => some note.importance
  | _ => none

def properties? : EventKind → Option PropertyTable
  | projectStarted start => some (start.properties.getD .empty)
  | _ => none

def sameStart (a b : ProjectStart) : Bool :=
  a.id = b.id && a.parent = b.parent && a.file = b.file && a.targets = b.targets &&
    match a.properties, b.properties with
    | some s, some t => s.same t
    | none, none => true
    | _, _ => false

def same : EventKind → EventKind → Bool
  | projectStarted a, projectStarted b => sameStart a b
  | a, b => a = b

def fileFragment (file : Option String) : String :=
  match file.filter (· ≠ "") with
  | some file => " file=" ++ file
  | none => ""

def summary (kind : EventKind) : String :=
  kind.type.name ++
    match kind with
    | custom | buildStarted => ""
    | buildFinished succeeded => " succeeded=" ++ toString succeeded
    | projectStarted start =>
        " project_id=" ++ toString start.id ++ " targets=" ++ ";".intercalate start.targets ++
          fileFragment start.file
    | projectFinished finish =>
        " succeeded=" ++ toString finish.succeeded ++ fileFragment finish.file
    | targetStarted start =>
        " target=" ++ start.name.getD "" ++ " reason=" ++ start.reason.name
    | targetFinished finish =>
        " target=" ++ finish.name.getD "" ++ " succeeded=" ++ toString finish.succeeded
    | error d | warning d =>
        " code=" ++ d.code.getD "" ++ fileFragment d.file ++ d.span.location
    | message note => " importance=" ++ note.importance.name

end EventKind

end BuildFeed
