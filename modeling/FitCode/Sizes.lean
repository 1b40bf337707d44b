import FitCode.Graph.Build
import FitCode.Graph.Description
import FitCode.Graph.Evaluation

/-! # Output sizes

A size table says how many values a node produces; nodes it does not list produce one. Sizes are
given for some objects and inferred for the rest: a reducer has size one and any other node the
largest size among its operands.
-/
namespace FitCode

abbrev IdMap (α : Type) := List (Identity × α)

namespace IdMap

variable {α : Type}

def get? (m : IdMap α) (id : Identity) : Option α := (m.find? fun e => e.1.same id).map (·.2)

/-- Sets a value. An identity that is present keeps its place and label. -/
def put : IdMap α → Identity → α → IdMap α
  | [], id, a => [(id, a)]
  | e :: m, id, a => if e.1.same id then (e.1, a) :: m else e :: put m id a

end IdMap

abbrev Sizing := List (Datum × Datum)

namespace Sizing

/-- Whether two values are the same key: equal numbers of any types, equal texts, one object, one
serial number, or arguments of one kind with such contents. An object and its identity are different
keys. -/
def sameKey : Datum → Datum → Bool
  | .object v, .object w => v == w
  | .identity a, .identity b => a.same b
  | .text s, .text t => s == t
  | .null, .null => true
  | .argument k d, .argument l e => k == l && sameKey d e
  | d, e =>
    match d.number?, e.number? with
    | some m, some n => Datum.sameNumber m n
    | _, _ => false

/-- Whether a value can be a key: lists cannot, nor can arguments that hold one. -/
def isKey : Datum → Bool
  | .list _ => false
  | .argument _ d => isKey d
  | _ => true

/-- A repeated key keeps its first place and takes the last value. -/
def put : Sizing → Datum → Datum → Sizing
  | [], key, size => [(key, size)]
  | e :: s, key, size => if sameKey e.1 key then (e.1, size) :: s else e :: put s key size

def ofTerms (g : Graph) (pairs : List (Term × Term)) : Evaluation Sizing :=
  pairs.foldlM (fun s (a, b) => do
    let key ← a.eval g
    let size ← b.eval g
    if isKey key then return s.put key size else throw .wrongType) []

end Sizing

abbrev SizeTable := IdMap Nat

namespace SizeTable

def ofSizing (g : Graph) (s : Sizing) : Except Fault SizeTable :=
  s.foldlM (fun t (key, size) => do
    let n ← Kind.ofConversion size.toInt
    if n < 1 then .error (.sizeTooSmall (← g.embedded key) n)
    .ok (IdMap.put t (← g.identityOf key) n.toNat)) []

def size (t : SizeTable) (id : Identity) : Nat := (IdMap.get? t id).getD 1

def sizeAt (t : SizeTable) (g : Graph) (key : Datum) : Except Fault Nat := do
  .ok (t.size (← g.identityOf key))

def item (t : SizeTable) (g : Graph) (key : Datum) : Except Fault Nat := do
  ((IdMap.get? t (← g.identityOf key)).elim (.error .missingKey) .ok)

def contains (t : SizeTable) (g : Graph) (key : Datum) : Except Fault Bool := do
  .ok (IdMap.get? t (← g.identityOf key)).isSome

def described (t : SizeTable) : String :=
  "OutputSizeTable(\x7b" ++
    String.intercalate ", " (t.map fun (id, n) => id.shown ++ ": " ++ toString n) ++ "\x7d)"

end SizeTable

namespace Sizes

def largest : List Int → Int
  | [] => 1
  | n :: ns => ns.foldl max n

/-- Sizes found so far, in order of completion, or a failure. -/
abbrev Measure := StateT (IdMap Int) (Except Fault)

/-- The size of an object, with the sizes of everything measured on the way recorded. The first
argument bounds the levels of operands. -/
def measure (g : Graph) (known : IdMap Int) : (nesting : Nat) → Datum → Measure Int
  | 0, _ => throw .tooDeep
  | nesting + 1, d => do
    let id ← g.identityOf d
    if let some n := IdMap.get? (← get) id then return n
    let n ← match IdMap.get? known id with
      | some n => pure n
      | none =>
        match d with
        | .object v =>
          match g.operands? v with
          | none => throw .noAttribute
          | some vs =>
            let ns ← vs.mapM fun w => measure g known nesting (g.datum w)
            pure (if (g.kind v).isReducer then 1 else largest ns)
        | _ => throw .noAttribute
    modify fun m => m.put id n
    return n

/-- One object, or the items of a list. A text has its characters as items. -/
def roots : Datum → Except Fault (List Datum)
  | .object v => .ok [.object v]
  | .list ds => .ok ds
  | .text s => .ok (s.toList.map fun c => .text (String.ofList [c]))
  | _ => .error .wrongType

/-- Known sizes by identity; the last value given for an identity counts. -/
def known (g : Graph) (s : Sizing) : Except Fault (IdMap Int) :=
  s.foldlM (fun m (key, size) => do
    let id ← g.identityOf key
    .ok (IdMap.put m id (← Kind.ofConversion size.toInt))) []

/-- The sizes above one of everything reachable from the roots. Known sizes have to be given, be it
none. Operands are measured at most `levels` deep; a cycle goes deeper. -/
def infer (g : Graph) (start : Datum) (s : Option Sizing) (levels : Nat := 331) :
    Except Fault SizeTable := do
  let k ← s.elim (.error .noAttribute) (known g)
  let ((), sizes) ← ((← roots start).forM fun d => discard (measure g k levels d)).run []
  .ok ((sizes.filter fun (_, n) => 1 < n).map fun (id, n) => (id, n.toNat))

end Sizes

end FitCode
