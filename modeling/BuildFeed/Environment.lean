namespace BuildFeed

abbrev Environment := String → Option String

def Environment.value? (env : Environment) (name : String) : Option String :=
  (env name).filter (· ≠ "")

end BuildFeed
