import FitCode.Graph.Basic

/-! # Texts of graph objects and values -/
namespace FitCode.Graph

def name? (g : Graph) (v : Nat) : Option String :=
  match g.kind v with
  | .identity => none
  | _ => some (g.name v)

def listText (items : List String) : String := "[" ++ String.intercalate ", " items ++ "]"

/-- A node as its class and name, a collection with the names of its members. -/
def describe (g : Graph) (v : Nat) : Except Fault String :=
  match g.kind v with
  | .identity => .ok (g.idOf v).described
  | .collection ms =>
    match ms.mapM g.name? with
    | some names =>
      .ok ("Collection(" ++ Text.quoted (g.name v) ++ ", " ++ listText (names.map Text.quoted) ++
        ")")
    | none => .error .noAttribute
  | k => .ok (k.className ++ "(" ++ Text.quoted (g.name v) ++ ")")

def flagText (b : Bool) : String := if b then "True" else "False"

def fieldName : ArgumentKind → String
  | .float => "value"
  | .int => "value"
  | .text => "text"
  | .node => "node"
  | .collection => "collection"

mutual

def describeDatum (g : Graph) : Datum → Except Fault String
  | .int n => .ok (toString n)
  | .text s => .ok (Text.quoted s)
  | .flag b => .ok (flagText b)
  | .null => .ok "None"
  | .list ds => do .ok (listText (← describeAll g ds))
  | .float x => .ok (Decimal.shortText x)
  | .single x => .ok ("np.float32(" ++ Decimal.single.text x ++ ")")
  | .double x => .ok ("np.float64(" ++ Decimal.shortText x ++ ")")
  | .word n => .ok ("np.int64(" ++ toString n ++ ")")
  | .wordFlag b => .ok ("np." ++ flagText b ++ "_")
  | .object v => g.describe v
  | .identity id => .ok id.described
  | .argument k d => do
    .ok (k.className ++ "(" ++ fieldName k ++ "=" ++ (← describeDatum g d) ++ ")")

def describeAll (g : Graph) : List Datum → Except Fault (List String)
  | [] => .ok []
  | d :: ds => do .ok ((← describeDatum g d) :: (← describeAll g ds))

end

def datumText (g : Graph) : Datum → Except Fault String
  | .text s => .ok s
  | .single x => .ok (Decimal.single.text x)
  | .double x => .ok (Decimal.shortText x)
  | .word n => .ok (toString n)
  | .wordFlag b => .ok (flagText b)
  | .identity id => .ok id.shown
  | d => g.describeDatum d

/-- A value as a message embeds it: a single-precision number with the digits of its double. -/
def embedded (g : Graph) : Datum → Except Fault String
  | .single x => .ok (Decimal.shortText x)
  | d => g.datumText d

end FitCode.Graph
