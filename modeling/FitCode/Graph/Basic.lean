import FitCode.Script

/-! # Model graphs

A graph is an array of vertices: nodes, collections of nodes and bare identities. The position of a
vertex is its serial number, and nodes refer to their operands by it. Edges may lead anywhere, so a
graph can have cycles.
-/
namespace FitCode

inductive Kind where
  | parameter (value : Float) (constant : Bool)
  | observable
  | constant (value : Float)
  | sum (terms : List Nat)
  | product (factors : List Nat)
  /-- An expression template over the results of the arguments. -/
  | formula (template : String) (args : List Nat)
  | gaussian (x mean sigma : Nat)
  | exponential (x c : Nat)
  | polynomial (x coefficients : Nat) (lowerOrder : Int)
  /-- A weighted sum of densities. -/
  | mixture (densities coefficients : Nat)
  | entrySum (term : Nat)
  | negLogLikelihood (term : Nat)
  /-- An expression in which `$i` stands for the result of the `i`-th operand. -/
  | custom (expr : String) (args : List Nat) (save : Bool)
  /-- A node lowered by running commands. -/
  | script (steps : List Step) (args : List Nat) (reducer : Bool)
  | collection (members : List Nat)
  | identity

namespace Kind

def className : Kind → String
  | parameter .. => "Parameter"
  | observable => "Observable"
  | constant .. => "Constant"
  | sum .. => "Sum"
  | product .. => "Product"
  | formula .. => "Formula"
  | gaussian .. => "Gaussian"
  | exponential .. => "Exponential"
  | polynomial .. => "Polynomial"
  | mixture .. => "AddPdf"
  | entrySum .. => "EntrySum"
  | negLogLikelihood .. => "NegativeLogLikelihood"
  | custom .. => "CustomNode"
  | script .. => "ScriptNode"
  | collection .. => "Collection"
  | identity => "NodeId"

/-- The operands as given, collections unexpanded; only nodes have operands. -/
def parts? : Kind → Option (List Nat)
  | parameter .. => some []
  | observable => some []
  | constant .. => some []
  | sum ts => some ts
  | product fs => some fs
  | formula _ as => some as
  | gaussian x m s => some [x, m, s]
  | exponential x c => some [x, c]
  | polynomial x cs _ => some [x, cs]
  | mixture ds cs => some [ds, cs]
  | entrySum t => some [t]
  | negLogLikelihood t => some [t]
  | custom _ as _ => some as
  | script _ as _ => some as
  | collection _ => none
  | identity => none

def isNode (k : Kind) : Bool := k.parts?.isSome

def isReducer : Kind → Bool
  | entrySum _ => true
  | negLogLikelihood _ => true
  | script _ _ r => r
  | _ => false

def members? : Kind → Option (List Nat)
  | collection ms => some ms
  | _ => none

end Kind

structure Vertex where
  name : String
  kind : Kind

structure Graph where
  vertices : Array Vertex

namespace Graph

def size (g : Graph) : Nat := g.vertices.size

/-- The vertex with a serial number; a number beyond the graph is a bare identity. -/
def vertex (g : Graph) (v : Nat) : Vertex := (g.vertices[v]?).getD ⟨"", .identity⟩

def kind (g : Graph) (v : Nat) : Kind := (g.vertex v).kind

def name (g : Graph) (v : Nat) : String := (g.vertex v).name

def idOf (g : Graph) (v : Nat) : Identity := ⟨v, g.name v⟩

def datum (g : Graph) (v : Nat) : Datum :=
  match g.kind v with
  | .identity => .identity (g.idOf v)
  | _ => .object v

def expand (g : Graph) (v : Nat) : List Nat := ((g.kind v).members?).getD [v]

/-- The operands of a node, with collections replaced by their members. -/
def operands? (g : Graph) (v : Nat) : Option (List Nat) :=
  ((g.kind v).parts?).map fun vs => vs.flatMap g.expand

def operands (g : Graph) (v : Nat) : List Nat := (g.operands? v).getD []

def typeName (g : Graph) : Datum → String
  | .int _ => "int"
  | .text _ => "str"
  | .flag _ => "bool"
  | .null => "NoneType"
  | .list _ => "list"
  | .float _ => "float"
  | .single _ => "float32"
  | .double _ => "float64"
  | .word _ => "int64"
  | .wordFlag _ => "bool"
  | .object v => (g.kind v).className
  | .identity _ => "NodeId"
  | .argument k _ => k.className

def identityOf (g : Graph) : Datum → Except Fault Identity
  | .object v => .ok (g.idOf v)
  | .identity id => .ok id
  | d => .error (.noIdentity (g.typeName d))

end Graph

end FitCode
