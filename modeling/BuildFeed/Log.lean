namespace BuildFeed

inductive Level where
  | debug
  | info
  | warn
  | error
  deriving DecidableEq, Repr

structure LogRecord where
  level : Level
  message : String
  fields : List (String × String)
  deriving DecidableEq, Repr

def Level.name : Level → String
  | debug => "DEBUG"
  | info => "INFO"
  | warn => "WARN"
  | error => "ERROR"

def LogRecord.field? (record : LogRecord) (name : String) : Option String :=
  record.fields.lookup name

end BuildFeed
