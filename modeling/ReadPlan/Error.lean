import ReadPlan.Text.Quoted
import ReadPlan.Sql.Token

namespace ReadPlan

inductive ShapeFault
  | filterNotObject
  | filtersNotArray
  | conditionsNotArray
  | conditionNotObject
  | strayMarker
  | operatorsOnAssociation
  | notScalar
  | nullOperand
  | truthOperand
  | patternOperand
  | notScalars
  | notPair
  | notReference
  | havingNotObject
  | havingNotOperators
  | arraysUnsupported (dialect : Dialect)
  | notRange
  | notArray
  deriving DecidableEq

inductive RequestFault
  | emptyPath
  | functionName (function : String)
  | aggregateField (function : String)
  | noJunction (association : String)
  deriving DecidableEq

inductive QueryError
  | entityNotFound (name : String)
  | unknownOperator (token : String)
  | unknownAssociation (entity association : String)
  | unknownField (entity field : String)
  | invalidShape (path : String) (fault : ShapeFault)
  | havingNotAggregate (key : String)
  | fragmentRejected (key : String)
  | unboundPattern (pattern : String)
  | invalidRequest (fault : RequestFault)
  | execution (text : String)
  | unwritable (fault : Sql.FloatFault)
  deriving DecidableEq

def ShapeFault.reason : ShapeFault → String
  | filterNotObject => "filters should be an object"
  | filtersNotArray => "and/or expects an array of filters"
  | conditionsNotArray => "and/or expects an array of conditions"
  | conditionNotObject => "conditions should be an object"
  | strayMarker => "a subquery marker must be the only key and hold a string"
  | operatorsOnAssociation => "an association key takes a nested filter, not an operator map"
  | notScalar => "expected a scalar value"
  | nullOperand => "null is only accepted by eq, ne and not"
  | truthOperand => "not takes true, false or null"
  | patternOperand => "pattern must be a string"
  | notScalars => "expected an array of scalars"
  | notPair => "expected a two-element array"
  | notReference => "expected a field reference"
  | havingNotObject => "having should be an object"
  | havingNotOperators => "having conditions should be an operator map"
  | arraysUnsupported d => "array operators are not supported by " ++ d.name
  | notRange => "expected a range"
  | notArray => "expected an array"

def RequestFault.reason : RequestFault → String
  | emptyPath => "empty association path"
  | functionName f => "aggregate function " ++ Text.quoted f ++ " is not a plain identifier"
  | aggregateField f => "aggregate " ++ f ++ " expects a field name"
  | noJunction association => "association " ++ association ++ " has no junction table"

namespace QueryError

def kind : QueryError → String
  | entityNotFound _ => "EntityNotFound"
  | unknownOperator _ => "UnknownOperator"
  | unknownAssociation .. => "UnknownAssociation"
  | unknownField .. => "UnknownField"
  | invalidShape .. => "InvalidFilterShape"
  | havingNotAggregate _ => "HavingFieldNotAggregate"
  | fragmentRejected _ => "RawSubqueryRejected"
  | unboundPattern _ => "UnboundPattern"
  | invalidRequest _ => "InvalidRequest"
  | execution _ => "Execution"
  | unwritable _ => "UnwritableFloat"

def message : QueryError → String
  | entityNotFound name => "Model " ++ name ++ " not found"
  | unknownOperator token => "Unsupported operator: " ++ token
  | unknownAssociation entity association =>
    "Association " ++ association ++ " not found for model " ++ entity
  | unknownField entity field => "Field " ++ field ++ " not found in model " ++ entity
  | invalidShape path fault => "Invalid filter shape at " ++ path ++ ": " ++ fault.reason
  | havingNotAggregate key => "Unsupported field in HAVING clause: " ++ key
  | fragmentRejected key => "Raw subquery fragments are rejected (field " ++ key ++ ")"
  | unboundPattern pattern =>
    "Global search term " ++ Text.quoted pattern ++
      " is not bound to a column and cannot be rendered"
  | invalidRequest fault => "Invalid request: " ++ fault.reason
  | execution text => "Execution failed: " ++ text
  | unwritable fault => fault.message

end QueryError

end ReadPlan
