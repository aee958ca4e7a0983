import QueryTemplate.Template
import QueryTemplate.Interpreter.Basic

/-!
# The catalogue of queries

A query is a template that is known by an entity and a name. It is compiled when it is first used, and again only
after it has been registered anew. Every run starts from nothing but its parameters.
-/

namespace QueryTemplate

/-- A named template. -/
structure Query where
  entity : String
  name : String
  source : String
  /-- The mapper that the template declares for the rows of its result. -/
  mapper : Option String
deriving DecidableEq, Repr

/-- Why a run of a query has no result. -/
inductive QueryError
  | compilation (e : CompileError)
  | evaluation (e : EvalError)
  | queryNotFound (entity query : String)
  | noMapper (entity query : String)
  | mapperNotFound (entity query mapper : String)
  | notAMapper (name type : String)
deriving DecidableEq, Repr

namespace QueryError

/-- An entity and the name of a query, as messages give them. -/
def queryText (entity query : String) : String := "query [entity='" ++ entity ++ "', queryName=" ++ query ++ "]"

def message : QueryError → String
  | compilation e => e.message
  | evaluation e => e.message
  | queryNotFound entity query => "not found " ++ queryText entity query
  | noMapper entity query => queryText entity query ++ " declares no mapper"
  | mapperNotFound entity query mapper => "mapper '" ++ mapper ++ "' not found in " ++ queryText entity query
  | notAMapper name type => "'" ++ name ++ "' is a " ++ type ++ ", not a mapper"

/-- The report of a fault of the template. Other errors have no place in it, and a panic is not reported. -/
def diagnostic? : QueryError → Option Diagnostic
  | compilation e => some e.diagnostic
  | evaluation e => e.diagnostic?
  | _ => none

end QueryError

/-- A registered query, with its tree once it has been compiled. -/
structure CatalogEntry where
  query : Query
  program : Option Program

namespace CatalogEntry

/-- Whether the entry is that of an entity and a query name. -/
def isFor (entity name : String) (e : CatalogEntry) : Bool := e.query.entity == entity && e.query.name == name

end CatalogEntry

/-- The registered queries, with what their runs share: host types, host objects and the output. -/
structure Catalog where
  /-- One entry for each entity and query name. -/
  entries : List CatalogEntry
  types : Registry
  heap : Heap
  output : Output
  /-- The number of function and mapper declarations that the runs have executed so far. -/
  declarations : Nat

namespace Catalog

/-- A catalogue without queries. -/
def new (types : Registry) (heap : Heap) (output : Output) : Catalog := ⟨[], types, heap, output, 0⟩

/-- The entry of an entity and a query name. -/
def entry? (c : Catalog) (entity name : String) : Option CatalogEntry := c.entries.find? (·.isFor entity name)

/-- The query of an entity and a name. -/
def query? (c : Catalog) (entity name : String) : Option Query := (c.entry? entity name).map CatalogEntry.query

/-- Put an entry in place of that of the same entity and name. -/
def put (c : Catalog) (e : CatalogEntry) : Catalog :=
  { c with entries := e :: c.entries.filter fun other => !other.isFor e.query.entity e.query.name }

/-- Register a query, in place of any other of the same entity and name. -/
def register (c : Catalog) (q : Query) : Catalog := c.put ⟨q, none⟩

/-- The number of queries that have been compiled since they were registered. -/
def compiledCount (c : Catalog) : Nat := c.entries.countP fun e => e.program.isSome

/-- The tree of a query, which is compiled if it has not been yet. -/
def program (c : Catalog) (entity name : String) : Except QueryError Program × Catalog :=
  match c.entry? entity name with
  | none => (.error (.queryNotFound entity name), c)
  | some e =>
    match e.program with
    | some p => (.ok p, c)
    | none =>
      match compile e.query.source with
      | .ok p => (.ok p, c.put { e with program := some p })
      | .error f => (.error (.compilation f), c)

/-- An interpreter for one run. -/
def interpreter (c : Catalog) : Interpreter :=
  (Interpreter.fresh c.types Interpreter.defaultCallLimit c.heap c.output).numberedFrom c.declarations

/-- Keep of a run what it did to the host objects, what it printed and how many declarations it executed. -/
def after (c : Catalog) (i : Interpreter) : Catalog :=
  { c with heap := i.machine.heap, output := i.machine.output, declarations := i.machine.declarations }

/-- Run a query with parameters. The result is the text of its value. -/
def prepare (c : Catalog) (entity name : String) (parameters : List (String × Value)) :
    Except QueryError String × Catalog :=
  match c.program entity name with
  | (.error e, c) => (.error e, c)
  | (.ok program, c) =>
    match (c.interpreter.defineAll parameters).execute program with
    | (.ok v, i) => (.ok v.display, c.after i)
    | (.error e, i) => (.error (.evaluation e), c.after i)

/-- The mapper of a template that has been run. -/
def mapperOf (i : Interpreter) (entity name mapper : String) : Except QueryError Value :=
  match i.lookup mapper with
  | .ok (.mapper f) => .ok (.mapper f)
  | .ok v => .error (.notAMapper mapper v.typeName)
  | .error _ => .error (.mapperNotFound entity name mapper)

/-- Run a query and apply its mapper to rows. -/
def mapRows (c : Catalog) (entity name : String) (rows : List Row) : Except QueryError (List Value) × Catalog :=
  match c.query? entity name with
  | none => (.error (.queryNotFound entity name), c)
  | some q =>
    match q.mapper with
    | none => (.error (.noMapper entity name), c)
    | some mapper =>
      match c.program entity name with
      | (.error e, c) => (.error e, c)
      | (.ok program, c) =>
        match c.interpreter.execute program with
        | (.error e, i) => (.error (.evaluation e), c.after i)
        | (.ok _, i) =>
          match mapperOf i entity name mapper with
          | .error e => (.error e, c.after i)
          | .ok m =>
            match i.mapRows m rows with
            | (.ok vs, i) => (.ok vs, c.after i)
            | (.error e, i) => (.error (.evaluation e), c.after i)

end Catalog

end QueryTemplate
