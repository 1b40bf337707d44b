import FitCode.Graph.Build
import FitCode.Graph.Description
import FitCode.Graph.Reach

/-! # Questions about graph objects

An object that lacks what is asked for refuses the question. Lists of objects show the identities of
their items, which only nodes and collections have.
-/
namespace FitCode.Graph

def ownIdentity (g : Graph) : Datum → Except Fault Identity
  | .object v => .ok (g.idOf v)
  | _ => .error .noAttribute

def identities (g : Graph) (ds : List Datum) : Except Fault (List Identity) :=
  ds.mapM g.ownIdentity

def ofObject {α : Type} (g : Graph) (part : Vertex → Option α) : Datum → Except Fault α
  | .object v => (part (g.vertex v)).elim (.error .noAttribute) .ok
  | _ => .error .noAttribute

def operandIds (g : Graph) : Datum → Except Fault (List Identity)
  | .object v =>
    (g.operands? v).elim (.error .noAttribute) fun vs => g.identities (vs.map g.datum)
  | _ => .error .noAttribute

def collectionIds (g : Graph) (d : Datum) : Except Fault (List Identity) := do
  let vs ← g.ofObject (·.kind.parts?) d
  .ok ((vs.filter fun v => (g.kind v).members?.isSome).map g.idOf)

def items? (g : Graph) : Datum → Option (List Datum)
  | .object v => ((g.kind v).members?).map fun ms => ms.map g.datum
  | .list ds => some ds
  | .text s => some (s.toList.map fun c => .text (String.ofList [c]))
  | _ => none

def itemIds (g : Graph) (d : Datum) : Except Fault (List Identity) :=
  (g.items? d).elim (.error .wrongType) g.identities

def reducer (g : Graph) (d : Datum) : Except Fault Bool :=
  g.ofObject (fun v => if v.kind.isNode then some v.kind.isReducer else none) d

def length (g : Graph) (d : Datum) : Except Fault Nat :=
  (g.items? d).elim (.error .wrongType) fun ds => .ok ds.length

/-- An array element refuses any position, other values without items refuse to be indexed. -/
def indexFault : Datum → Fault
  | .single _ => .indexOutside
  | .double _ => .indexOutside
  | .word _ => .indexOutside
  | .wordFlag _ => .indexOutside
  | _ => .wrongType

def position? : Datum → Option Int
  | .int n => some n
  | .flag b => some (Datum.flagInt b)
  | _ => none

/-- The identity of an item by position; negative positions count from the end. -/
def itemId (g : Graph) (d i : Datum) : Except Fault Identity :=
  match g.items? d, position? i with
  | none, _ => .error (indexFault d)
  | some _, none => .error .wrongType
  | some ds, some i =>
    let k := if 0 ≤ i then i else ds.length + i
    if k < 0 then .error .indexOutside
    else (ds[k.toNat]?).elim (.error .indexOutside) g.ownIdentity

def reachesDatum (g : Graph) (d other : Datum) (stop : Bool) : Except Fault Bool :=
  match d with
  | .object v => do
    let target ← g.identityOf other
    g.reaches v target.serial stop
  | _ => .error .noAttribute

def same (g : Graph) (a b : Datum) : Except Fault Bool := do
  let x ← g.identityOf a
  .ok (x.same (← g.identityOf b))

/-- The literal of a parameter, constant or numeric argument, as code. -/
def valueCode (g : Graph) : Datum → Except Fault String
  | .argument .float d => Kind.ofConversion d.toFloatCode
  | .argument .int d => Kind.ofConversion d.toFloatCode
  | d => g.ofObject (fun v => match v.kind with
    | .parameter x _ => some (Datum.floatCode x)
    | .constant x => some (Datum.floatCode x)
    | _ => none) d

def lowerOrder (g : Graph) (d : Datum) : Except Fault Int :=
  g.ofObject (fun v => match v.kind with
    | .polynomial _ _ n => some n
    | _ => none) d

def density (g : Graph) (d : Datum) : Except Fault Identity := do
  let t ← g.ofObject (fun v => match v.kind with
    | .negLogLikelihood t => some t
    | _ => none) d
  g.ownIdentity (g.datum t)

end FitCode.Graph
