import Marksmith.Syntax.TypeRef

/-!
Identity of declarations: the qualified name of a definition and the number of its type parameters.
`Pool<Enemy>` and `Pool<T>` are the same symbol. A `SymbolTable` keeps values in the order of their
symbols.
-/

namespace Marksmith

open Syntax (TypeRef)

/-- A definition, whatever its type arguments are. -/
structure Symbol where
  name : String
  arity : Nat
deriving DecidableEq, Repr, Inhabited

namespace Symbol

/-- The definition behind a type. -/
def ofType (t : TypeRef) : Symbol := ⟨t.name, t.args.length⟩

/-- The last segment of the name. -/
def simpleName (s : Symbol) : String := TypeRef.lastSegment s.name

/-- The text of a symbol: its name, and its arity behind a backtick if it has type parameters. -/
def text (s : Symbol) : String :=
  if s.arity = 0 then s.name else s.name ++ "`" ++ toString s.arity

/-- A number of type parameters in decimal digits, possibly behind a plus sign. It fits a word of 64
bits. -/
def arityOf? (s : List Char) : Option Nat :=
  let digits := match s with
    | '+' :: rest => rest
    | s => s
  if digits.isEmpty || !digits.all Char.isDigit then none
  else
    let n := digits.foldl (fun n c => 10 * n + (c.toNat - '0'.toNat)) 0
    if n < 0x10000000000000000 then some n else none

/-- The symbol that a text denotes. A text without an arity behind its last backtick is a name. -/
def ofText (s : String) : Symbol :=
  let reversed := s.toList.reverse
  match reversed.dropWhile (· != '`') with
  | [] => ⟨s, 0⟩
  | _ :: name =>
    match arityOf? (reversed.takeWhile (· != '`')).reverse with
    | some n => ⟨String.ofList name.reverse, n⟩
    | none => ⟨s, 0⟩

/-- Symbols are ordered by name and then by arity. -/
def compare (a b : Symbol) : Ordering :=
  (Ord.compare a.name b.name).then (Ord.compare a.arity b.arity)

/-- Whether a symbol stands before another one. -/
def before (a b : Symbol) : Bool := a.compare b == .lt

/-- A sorted list without repetitions, with one symbol more. -/
def insertSorted (s : Symbol) : List Symbol → List Symbol
  | [] => [s]
  | t :: ts =>
    if s = t then t :: ts
    else if s.before t then s :: t :: ts
    else t :: insertSorted s ts

end Symbol

/-! ### Tables from symbols to values -/

/-- A table with at most one value for a symbol. -/
structure SymbolTable (α : Type) where
  entries : List (Symbol × α) := []
deriving Repr

namespace SymbolTable

variable {α β : Type}

/-- The entries with a value put at its place; an older value of the symbol is replaced. -/
def insertEntry (s : Symbol) (value : α) : List (Symbol × α) → List (Symbol × α)
  | [] => [(s, value)]
  | (t, v) :: rest =>
    if s = t then (s, value) :: rest
    else if s.before t then (s, value) :: (t, v) :: rest
    else (t, v) :: insertEntry s value rest

def insert (table : SymbolTable α) (s : Symbol) (value : α) : SymbolTable α :=
  ⟨insertEntry s value table.entries⟩

/-- The value of a symbol. -/
def get? (table : SymbolTable α) (s : Symbol) : Option α := table.entries.lookup s

def contains (table : SymbolTable α) (s : Symbol) : Bool := (table.get? s).isSome

/-- The value of the definition behind a type. -/
def ofType? (table : SymbolTable α) (t : TypeRef) : Option α := table.get? (.ofType t)

/-- Whether the definition behind a type has a value. -/
def containsType (table : SymbolTable α) (t : TypeRef) : Bool := table.contains (.ofType t)

def size (table : SymbolTable α) : Nat := table.entries.length

def isEmpty (table : SymbolTable α) : Bool := table.entries.isEmpty

/-- The values in the order of their symbols. -/
def values (table : SymbolTable α) : List α := table.entries.map (·.2)

/-- The table with every value changed. -/
def map (f : α → β) (table : SymbolTable α) : SymbolTable β :=
  ⟨table.entries.map fun (s, value) => (s, f value)⟩

end SymbolTable

end Marksmith
