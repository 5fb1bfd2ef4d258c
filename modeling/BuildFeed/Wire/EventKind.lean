import BuildFeed.Wire.Codec

namespace BuildFeed

def helpLinkVersion : Int32 := 2

namespace Codec

def contextIds : Codec Context :=
  (int32.pair (int32.pair (int32.pair (int32.pair (int32.pair int32))))).iso
    (fun (node, project, target, task, submission, instanceId) =>
      ⟨node, project, target, task, submission, instanceId⟩)
    (fun c => (c.node, c.project, c.target, c.task, c.submission, c.instanceId))

def context : Codec Context :=
  contextIds.optional.iso (·.getD .invalid) (fun c => if c.isInvalid then none else some c)

def span : Codec Span :=
  (int32.pair (int32.pair (int32.pair int32))).iso
    (fun (line, column, endLine, endColumn) => ⟨line, column, endLine, endColumn⟩)
    (fun s => (s.line, s.column, s.endLine, s.endColumn))

def projectStart : Codec ProjectStart :=
  (int32.pair (contextIds.optional.pair (optionalText.pair (textList.pair properties)))).iso
    (fun (id, parent, file, targets, properties) => ⟨id, parent, file, targets, properties⟩)
    (fun p => (p.id, p.parent, p.file, p.targets, p.properties))

def projectFinish : Codec ProjectFinish :=
  (bool.pair optionalText).iso (fun (succeeded, file) => ⟨file, succeeded⟩)
    (fun p => (p.succeeded, p.file))

def targetStart : Codec TargetStart :=
  (optionalText.pair (optionalText.pair (optionalText.pair (optionalText.pair coded)))).iso
    (fun (name, projectFile, file, parent, reason) => ⟨name, projectFile, file, parent, reason⟩)
    (fun t => (t.name, t.projectFile, t.file, t.parent, t.reason))

def targetFinish : Codec TargetFinish :=
  (optionalText.pair (optionalText.pair (optionalText.pair bool))).iso
    (fun (projectFile, file, name, succeeded) => ⟨name, projectFile, file, succeeded⟩)
    (fun t => (t.projectFile, t.file, t.name, t.succeeded))

def diagnostic : Codec Diagnostic :=
  (optionalText.pair (optionalText.pair (optionalText.pair (optionalText.pair
    (span.pair (optionalText.since helpLinkVersion)))))).iso
    (fun (subcategory, code, file, projectFile, span, helpLink) =>
      ⟨subcategory, code, file, projectFile, span, helpLink⟩)
    (fun d => (d.subcategory, d.code, d.file, d.projectFile, d.span, d.helpLink))

def note : Codec Note :=
  (optionalText.pair (optionalText.pair (optionalText.pair (optionalText.pair
    (coded.pair span))))).iso
    (fun (subcategory, code, file, projectFile, importance, span) =>
      ⟨importance, subcategory, code, file, projectFile, span⟩)
    (fun n => (n.subcategory, n.code, n.file, n.projectFile, n.importance, n.span))

end Codec

namespace EventKind

def emit (terms : Terms) : EventKind → Emission
  | custom | buildStarted => ∅
  | buildFinished succeeded => Codec.bool.emit terms succeeded
  | projectStarted start => Codec.projectStart.emit terms start
  | projectFinished finish => Codec.projectFinish.emit terms finish
  | targetStarted start => Codec.targetStart.emit terms start
  | targetFinished finish => Codec.targetFinish.emit terms finish
  | error d | warning d => Codec.diagnostic.emit terms d
  | message note => Codec.note.emit terms note

def read (terms : Terms) : EventType → Read EventKind
  | .custom => pure custom
  | .buildStarted => pure buildStarted
  | .buildFinished => buildFinished <$> Codec.bool.parse terms
  | .projectStarted => projectStarted <$> Codec.projectStart.parse terms
  | .projectFinished => projectFinished <$> Codec.projectFinish.parse terms
  | .targetStarted => targetStarted <$> Codec.targetStart.parse terms
  | .targetFinished => targetFinished <$> Codec.targetFinish.parse terms
  | .error => error <$> Codec.diagnostic.parse terms
  | .warning => warning <$> Codec.diagnostic.parse terms
  | .message => message <$> Codec.note.parse terms

end EventKind

end BuildFeed
