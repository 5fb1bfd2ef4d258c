import BuildFeed.Log
import BuildFeed.Packet

namespace BuildFeed

def Packet.record (node : Int32) (p : Packet) : LogRecord :=
  let node := ("node_id", toString node)
  match p with
  | event e =>
      ⟨.info, "build event",
        [node, ("context", e.context.text), ("summary", e.summary),
          ("text", e.message.text.getD "")]⟩
  | projectError e => ⟨.warn, "invalid project file", [node, ("error", e.text)]⟩
  | loggerError e =>
      ⟨.error, "node logger failed",
        [node, ("error", e.text), ("inner", e.inner.getD ""),
          ("initialization", toString e.initialization)]⟩

end BuildFeed
