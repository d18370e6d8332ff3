import DistDb.Sql.Request

/-! # The objects of a statement

The parts of a parsed statement that name objects. Names are texts, as the parser prints them, and
the queries inside the expressions of a node are its `inner` queries. -/

namespace DistDb.Access
open Lib Sql

mutual

/-- A query: its `WITH` list, its body, and the queries inside its other clauses. -/
inductive Query where
  | mk (isRecursive : Bool) (cteTables : List Cte) (body : SetExpr) (inner : List Query)

inductive Cte where
  | mk (name : String) (query : Query)

inductive SetExpr where
  | select (relations : List TableWithJoins) (inner : List Query)
  | query (query : Query)
  | setOperation (left right : SetExpr)
  | other (names : List String) (inner : List Query)

inductive TableWithJoins where
  | mk (relation : TableFactor) (joins : List TableFactor)

inductive TableFactor where
  | table (name : String)
  | derived (subquery : Query)
  | nestedJoin (tableWithJoins : TableWithJoins)
  | other (names : List String) (inner : List Query)

end

/-- Statements that no other constructor is for name their objects directly. -/
inductive Statement where
  | query (query : Query)
  | insert (tableName : String) (source : Option Query) (inner : List Query)
  | update (table : TableWithJoins) (relations : List TableWithJoins) (inner : List Query)
  | delete (relations : List TableWithJoins) (tables : List String) (usingRelations : List TableWithJoins)
      (inner : List Query)
  | createTable (name : String) (query : Option Query) (others : List String)
  | createView (name : String) (query : Query)
  | drop (names : List String)
  | alterTable (name : String) (others : List String)
  | alterView (name : String) (query : Query)
  | truncate (tableNames : List String)
  | showCreate (objName : String)
  | showColumns (tableName : String)
  | explainTable (tableName : String)
  | other (names : List String) (inner : List Query)

/-! ## What the server collects

In the order in which the names are pushed. -/

mutual

def collectQueryObjects : Query → List String
  | .mk _ cteTables body _ => collectSetExprObjects body ++ collectCteObjects cteTables

def collectCteObjects : List Cte → List String
  | [] => []
  | .mk _ query :: cteTables => collectQueryObjects query ++ collectCteObjects cteTables

def collectSetExprObjects : SetExpr → List String
  | .select relations _ => collectRelationObjects relations
  | .query query => collectQueryObjects query
  | .setOperation left right => collectSetExprObjects left ++ collectSetExprObjects right
  | .other _ _ => []

def collectRelationObjects : List TableWithJoins → List String
  | [] => []
  | table :: relations => collectTableWithJoinsObjects table ++ collectRelationObjects relations

def collectTableWithJoinsObjects : TableWithJoins → List String
  | .mk relation joins => collectTableFactorObjects relation ++ collectJoinObjects joins

def collectJoinObjects : List TableFactor → List String
  | [] => []
  | factor :: joins => collectTableFactorObjects factor ++ collectJoinObjects joins

def collectTableFactorObjects : TableFactor → List String
  | .table name => [name]
  | .derived subquery => collectQueryObjects subquery
  | .nestedJoin table => collectTableWithJoinsObjects table
  | .other _ _ => []

end

def pushObject (collected : List String) (name : String) : List String :=
  if name ≠ "" ∧ name ∉ collected then collected ++ [name] else collected

/-- The top query's own `WITH` list is not among what is collected. -/
def Statement.pushedNames (objectName : Option String) : Statement → List String
  | .query (.mk _ _ body _) => collectSetExprObjects body
  | .insert tableName _ _ => [tableName]
  | .update table _ _ => collectTableWithJoinsObjects table
  | .delete relations _ _ _ => collectRelationObjects relations
  | .createTable name _ _ => [name]
  | .createView name _ => [name]
  | .drop names => names
  | .alterTable name _ => [name]
  | .alterView name _ => [name]
  | .truncate tableNames => tableNames
  | .showCreate objName => [objName]
  | .showColumns tableName => [tableName]
  | .explainTable tableName => [tableName]
  | .other _ _ => objectName.toList

/-! ## What a statement refers to

Every name in every position, except those of common table expressions in scope. -/

/-- The names that no common table expression in scope has. -/
def freeNames (scope names : List String) : List String :=
  names.filter fun name => normalizeIdentifier name ∉ scope

def cteNames (cteTables : List Cte) : List String :=
  cteTables.map fun | .mk name _ => normalizeIdentifier name

mutual

def queryReferences (scope : List String) : Query → List String
  | .mk isRecursive cteTables body inner =>
    cteReferences isRecursive scope cteTables ++ setExprReferences (cteNames cteTables ++ scope) body ++
      innerReferences (cteNames cteTables ++ scope) inner

def cteReferences (isRecursive : Bool) (scope : List String) : List Cte → List String
  | [] => []
  | .mk name query :: cteTables =>
    queryReferences (if isRecursive then normalizeIdentifier name :: scope else scope) query ++
      cteReferences isRecursive (normalizeIdentifier name :: scope) cteTables

def innerReferences (scope : List String) : List Query → List String
  | [] => []
  | query :: inner => queryReferences scope query ++ innerReferences scope inner

def setExprReferences (scope : List String) : SetExpr → List String
  | .select relations inner => relationReferences scope relations ++ innerReferences scope inner
  | .query query => queryReferences scope query
  | .setOperation left right => setExprReferences scope left ++ setExprReferences scope right
  | .other names inner => freeNames scope names ++ innerReferences scope inner

def relationReferences (scope : List String) : List TableWithJoins → List String
  | [] => []
  | table :: relations => tableWithJoinsReferences scope table ++ relationReferences scope relations

def tableWithJoinsReferences (scope : List String) : TableWithJoins → List String
  | .mk relation joins => tableFactorReferences scope relation ++ joinReferences scope joins

def joinReferences (scope : List String) : List TableFactor → List String
  | [] => []
  | factor :: joins => tableFactorReferences scope factor ++ joinReferences scope joins

def tableFactorReferences (scope : List String) : TableFactor → List String
  | .table name => freeNames scope [name]
  | .derived subquery => queryReferences scope subquery
  | .nestedJoin table => tableWithJoinsReferences scope table
  | .other names inner => freeNames scope names ++ innerReferences scope inner

end

def Statement.references : Statement → List String
  | .query body => queryReferences [] body
  | .insert tableName source inner => tableName :: innerReferences [] (source.toList ++ inner)
  | .update table relations inner =>
    tableWithJoinsReferences [] table ++ relationReferences [] relations ++ innerReferences [] inner
  | .delete relations tables usingRelations inner =>
    relationReferences [] relations ++ tables ++ relationReferences [] usingRelations ++ innerReferences [] inner
  | .createTable name source others => name :: others ++ innerReferences [] source.toList
  | .createView name body => name :: queryReferences [] body
  | .drop names => names
  | .alterTable name others => name :: others
  | .alterView name body => name :: queryReferences [] body
  | .truncate tableNames => tableNames
  | .showCreate objName => [objName]
  | .showColumns tableName => [tableName]
  | .explainTable tableName => [tableName]
  | .other names inner => names ++ innerReferences [] inner

end DistDb.Access
