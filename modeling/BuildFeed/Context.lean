namespace BuildFeed

structure Context where
  node : Int32
  project : Int32
  target : Int32
  task : Int32
  submission : Int32
  instanceId : Int32
  deriving DecidableEq

namespace Context

def invalid : Context :=
  ⟨-2, -2, -1, -1, -1, -1⟩

instance : Inhabited Context := ⟨invalid⟩

def isInvalid (c : Context) : Bool :=
  c = invalid

def of (node project target task : Int32) : Context :=
  { invalid with node, project, target, task }

def ofNode (node : Int32) : Context :=
  { invalid with node }

def withSubmission (c : Context) (submission instanceId : Int32) : Context :=
  { c with submission, instanceId }

def attributedTo (c : Context) (node : Int32) : Context :=
  if c.isInvalid then ofNode node else c

def text (c : Context) : String :=
  if c.isInvalid then "<invalid>"
  else
    "node=" ++ toString c.node ++ " project=" ++ toString c.project ++
      " target=" ++ toString c.target ++ " task=" ++ toString c.task ++
      " submission=" ++ toString c.submission ++ " instance=" ++ toString c.instanceId

end Context

end BuildFeed
