import BuildFeed.NodeError
import BuildFeed.Wire.EventFrame

namespace BuildFeed.Codec

def projectError : Codec ProjectError :=
  (optionalText.pair (optionalText.pair (span.pair (optionalText.pair (optionalText.pair
    (optionalText.pair bool)))))).iso
    (fun (message, projectFile, span, subcategory, code, help, logged) =>
      ⟨message, projectFile, span, subcategory, code, help, logged⟩)
    (fun e => (e.message, e.projectFile, e.span, e.subcategory, e.code, e.help, e.logged))

def loggerError : Codec LoggerError :=
  (optionalText.pair (optionalText.pair (optionalEvent.pair (optionalText.pair
    (optionalText.pair bool))))).iso
    (fun (message, inner, event, errorCode, help, initialization) =>
      ⟨message, inner, event, errorCode, help, initialization⟩)
    (fun e => (e.message, e.inner, e.event, e.errorCode, e.help, e.initialization))

def required {α : Type} (what : String) (c : Codec α) : Codec (Option α) where
  emit terms
    | some a => c.emit terms a
    | none => .fail (.missingValue what)
  read terms _ := some <$> c.parse terms
  blank := none

def projectErrorSlot : Codec (Option ProjectError) :=
  projectError.required "invalid project file error"

def loggerErrorSlot : Codec (Option LoggerError) :=
  loggerError.required "internal logger error"

end BuildFeed.Codec
