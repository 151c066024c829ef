/-
ApiStubs.Model.ValueType — the type of a parameter or a result.

The host compiler describes the type of a value by a small tree. Two
wrappers do not change what the value is: an optional one may be absent,
a coerced one is converted before the call.
-/

namespace ApiStubs

/-- The host's representation of a number. -/
inductive NumberRepr where
  | int | long | short | byte | float | double
  deriving DecidableEq, Repr

/-- The host's representation of a string. -/
inductive StringRepr where
  | text | bytes | enum
  deriving DecidableEq, Repr

/-- The type of a value at a parameter or result position. -/
inductive ValueType where
  /-- No value. -/
  | void
  | number (repr : NumberRepr) (boxed : Bool)
  | boolean (boxed : Bool)
  | string (repr : StringRepr)
  /-- The universal object type. -/
  | any
  /-- An unbounded type argument. -/
  | wildcard
  | array (element : ValueType)
  /-- A mapping; a missing argument was erased by the host. -/
  | map (key value : Option ValueType)
  /-- A list; a missing argument was erased by the host. -/
  | list (element : Option ValueType)
  | optional (inner : ValueType)
  /-- A value converted to `inner` before the call. -/
  | coerced (inner : ValueType)
  | union (alternatives : List ValueType)
  /-- Several results. -/
  | multiResult
  /-- A dynamic argument list. -/
  | arguments
  /-- Execution context, supplied by the runtime. -/
  | context
  /-- A declared type. -/
  | named (id : String)
  deriving Repr

namespace ValueType

/-! ## Equality -/

mutual

/-- Are the types the same? -/
def same : ValueType → ValueType → Bool
  | .void, .void => true
  | .number r b, .number r' b' => r == r' && b == b'
  | .boolean b, .boolean b' => b == b'
  | .string r, .string r' => r == r'
  | .any, .any => true
  | .wildcard, .wildcard => true
  | .array e, .array e' => e.same e'
  | .map k v, .map k' v' => sameArgument k k' && sameArgument v v'
  | .list e, .list e' => sameArgument e e'
  | .optional t, .optional t' => t.same t'
  | .coerced t, .coerced t' => t.same t'
  | .union ts, .union ts' => sameAll ts ts'
  | .multiResult, .multiResult => true
  | .arguments, .arguments => true
  | .context, .context => true
  | .named i, .named i' => i == i'
  | _, _ => false

/-- Are the type arguments the same, or both erased? -/
def sameArgument : Option ValueType → Option ValueType → Bool
  | none, none => true
  | some t, some t' => t.same t'
  | _, _ => false

/-- Are the types the same one by one? -/
def sameAll : List ValueType → List ValueType → Bool
  | [], [] => true
  | t :: ts, t' :: ts' => t.same t' && sameAll ts ts'
  | _, _ => false

end

/-! ## What a type says about its values -/

/-- The type without the wrappers around it. -/
def base : ValueType → ValueType
  | .optional inner => inner.base
  | .coerced inner => inner.base
  | t => t

/-- May the value be absent? Coercion does not change that. -/
def isOptional : ValueType → Bool
  | .optional _ => true
  | .coerced inner => inner.isOptional
  | _ => false

/-- Is the value supplied by the runtime and never seen by scripts? -/
def isIrrelevant : ValueType → Bool
  | .context => true
  | _ => false

/-- May the value be anything, in any number? -/
def isAny : ValueType → Bool
  | .multiResult => true
  | .arguments => true
  | .array .any => true
  | _ => false

/-- Does the type alone say what scripts see? -/
def isKnown (t : ValueType) : Bool :=
  match t.base with
  | .number _ false => true
  | .boolean false => true
  | .string .text => true
  | _ => false

/-- Is there no value at all? -/
def isVoid : ValueType → Bool
  | .void => true
  | _ => false

end ValueType

end ApiStubs
