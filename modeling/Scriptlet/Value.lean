import Scriptlet.Text.Quoted
import Scriptlet.Tree

namespace Scriptlet

/-- Where names are looked up: a scope of its own and the scopes around it, from the inside out. Scopes
are known by number. -/
structure Env where
  own : Nat
  outer : List Nat
  deriving DecidableEq, Repr

namespace Env

def chain (env : Env) : List Nat := env.own :: env.outer

/-- The environment around this one. -/
def enclosing? (env : Env) : Option Env :=
  match env.outer with
  | [] => none
  | own :: outer => some ⟨own, outer⟩

end Env

/-- A declared function together with the environment of its declaration. Each time a declaration is
executed it makes a function of a new identity. -/
structure Function where
  identity : Nat
  name : Token
  params : List Token
  body : List Stmt
  closure : Env

/-- The values of a running program. -/
inductive Value where
  | nil
  | bool (value : Bool)
  | number (value : Float)
  | string (value : String)
  | function (value : Function)

namespace Function

def arity (f : Function) : Nat := f.params.length

end Function

namespace Value

def ofLiteral : Literal → Value
  | .number x => number x
  | .string s => string s
  | .bool b => bool b
  | .nil => nil

def isNil : Value → Bool
  | nil => true
  | _ => false

/-- Only `nil` and `false` are not truthy. -/
def truthy : Value → Bool
  | nil | bool false => false
  | _ => true

def number? : Value → Option Float
  | number x => some x
  | _ => none

/-- Values of different sorts differ. Numbers compare as numbers and functions by identity. -/
protected def beq : Value → Value → Bool
  | nil, nil => true
  | bool a, bool b => a == b
  | number x, number y => x == y
  | string s, string t => s == t
  | function f, function g => f.identity == g.identity
  | _, _ => false

instance : BEq Value := ⟨Value.beq⟩

/-- A value as programs print it. -/
def text : Value → String
  | nil => "nil"
  | bool b => toString b
  | number x => Number.text x
  | string s => s
  | function f => "<fn " ++ f.name.lexeme ++ ">"

/-- A value for inspection: strings are quoted. -/
def inspect (shows : Char → Bool) : Value → String
  | string s => Quoted.encode shows s
  | v => v.text

end Value

end Scriptlet
