import FitCode.Program.Grammar.Basic

/-! # The grammar of generated code

Binary operators of all strengths form one chain, since only the extent of an expression matters
here and not its tree. The wrong forms stand where they are to be noticed, often before the valid
ones.
-/
namespace FitCode.Program

open Peg

def updateMarks : List String :=
  ["+=", "-=", "*=", "@=", "/=", "%=", "&=", "|=", "^=", "<<=", ">>=", "**=", "//="]

def arithmeticMarks : List String :=
  ["|", "^", "&", "<<", ">>", "+", "-", "*", "/", "//", "%", "@"]

def comparisonMarks : List String := ["==", "!=", "<=", "<", ">=", ">"]

def Peg.flatBlock : Peg := all [mark ":", newline, notAhead (token .indent)]

/-- The wrong forms of a statement with a block: no colon, and no indentation. -/
def Peg.wrongHead (head : List Peg) : Peg :=
  only .wrong (any
    [wrong .furthest (head ++ [newline]), wrong .furthest (head ++ [flatBlock])])

/-- The wrong form of a statement with a block whose colon is not looked for. -/
def Peg.wrongBlock (head : List Peg) : Peg :=
  only .wrong (wrong .furthest (head ++ [flatBlock]))

def Peg.value : Peg := any [rule .yielding, rule .starExpressions]

def Peg.asName : Peg := optional (all [keyword "as", name])

namespace Rule

def seriesOf (item : Rule) : Peg :=
  any
    [form .series (all [rule item, Peg.some (all [skip (mark ","), rule item]),
       optional (skip (mark ","))]),
     form .series (all [rule item, skip (mark ",")]), rule item]

/-- An item or attribute that no further one follows. -/
def lastPlace : Peg :=
  any [all [rule targetPrimary, mark ".", name, notAhead (rule targetMore)],
    all [rule targetPrimary, mark "[", rule slices, mark "]", notAhead (rule targetMore)]]

def peg : Rule → Peg
  -- statements
  | file => all [optional (rule statements), token .stop]
  | statements => Peg.some (rule statement)
  | statement => skip (any [rule compound, rule simpleLine])
  | compound => any
      [rule functionDef, rule ifStatement, rule classDef, rule withStatement, rule forStatement,
       rule tryStatement, rule whileStatement]
  | simpleLine => any
      [all [rule simple, notAhead (mark ";"), newline],
       all [rule simple, many (all [mark ";", rule simple]), optional (mark ";"), newline]]
  | simple => any
      [rule assignment, unstarred (rule starExpressions), rule returning, rule importing,
       rule raising, keyword "pass", rule deleting, rule yielding, rule asserting, keyword "break",
       keyword "continue", rule naming]
  | block => any
      [all [newline, token .indent, rule statements, token .dedent], rule simpleLine,
       only .wrong (wrong .furthest [newline, notAhead (token .indent)])]
  | assignment => any
      [all [name, mark ":", rule expression, optional (rule annotatedValue)],
       all [any [all [mark "(", rule singleTarget, mark ")"], rule singlePlace], mark ":",
         rule expression, optional (rule annotatedValue)],
       all [Peg.some (all [unstarred (all [rule targets, skip (mark "=")])]), unstarred Peg.value,
         notAhead (mark "=")],
       all [rule singleTarget, rule update, commit, unstarred Peg.value],
       only .wrong (rule wrongAssignment)]
  | annotatedValue => all [mark "=", Peg.value]
  | update => any (updateMarks.map mark)
  | wrongAssignment => any
      [wrong .first [rule wrongAnnotated, mark ":", rule expression],
       wrong .first [rule starNamedExpression, mark ",", many (rule starNamedExpressions), mark ":",
         rule expression],
       wrong .first [rule expression, mark ":", rule expression],
       wrong (.target .assign) [skip (many (all [rule targets, mark "="])), rule starExpressions,
         mark "="],
       wrong .first [skip (many (all [rule targets, mark "="])), rule yielding, mark "="],
       wrong .first [rule starExpressions, rule update, Peg.value]]
  | wrongAnnotated => any
      [rule list, rule tuple, all [skip (mark "("), rule wrongAnnotated, skip (mark ")")]]
  | returning => all [keyword "return", optional (unstarred (rule starExpressions))]
  | raising => any
      [all [keyword "raise", rule expression, optional (all [keyword "from", rule expression])],
       keyword "raise"]
  | naming => all [any [keyword "global", keyword "nonlocal"], Peg.list name]
  | deleting => any
      [all [keyword "del", rule deleteTargets, ahead (any [mark ";", newline])],
       only .wrong (wrong (.target .delete) [skip (keyword "del"), rule starExpressions])]
  | asserting => all [keyword "assert", rule expression, optional (all [mark ",", rule expression])]
  | importing => any
      [all [keyword "import", Peg.list (all [rule dottedName, Peg.asName])],
       all [keyword "from", many (any [mark ".", mark "..."]), rule dottedName, keyword "import",
         rule importTargets],
       all [keyword "from", Peg.some (any [mark ".", mark "..."]), keyword "import",
         rule importTargets]]
  | importTargets => any
      [all [mark "(", rule importNames, optional (mark ","), mark ")"],
       all [rule importNames, notAhead (mark ",")], mark "*",
       only .wrong (wrong .furthest [rule importNames, mark ",", newline])]
  | importNames => Peg.list (all [name, Peg.asName])
  | dottedName => all [name, many (all [mark ".", name])]
  -- statements with blocks
  | decorators => Peg.some (all [mark "@", rule namedExpression, newline])
  | classDef =>
    let head := [keyword "class", name,
      optional (all [mark "(", optional (rule arguments), mark ")"])]
    all [optional (rule decorators), any
      [wrongHead head, all (head ++ [mark ":", rule block])]]
  | functionDef =>
    let result := optional (all [mark "->", rule expression])
    all [optional (rule decorators), any
      [wrongBlock [keyword "def", name, mark "(", optional (rule parameters), mark ")", result],
       all [keyword "def", name, must (.mark "("), optional (rule parameters), mark ")", result,
         must (.mark ":"), rule block]]]
  | parameters => all [Peg.list (rule parameter), optional (mark ",")]
  | parameter =>
    let typed := all [name, optional (all [mark ":", rule expression])]
    any
      [all [typed, optional (all [mark "=", rule expression])], mark "/",
       all [mark "*", optional typed], all [mark "**", typed]]
  | ifStatement =>
    let head := [keyword "if", rule namedExpression]
    any
      [wrongHead head, all (head ++ [mark ":", rule block, rule elifStatement]),
       all (head ++ [mark ":", rule block, optional (rule elseBlock)])]
  | elifStatement =>
    let head := [keyword "elif", rule namedExpression]
    any
      [wrongHead head, all (head ++ [mark ":", rule block, rule elifStatement]),
       all (head ++ [mark ":", rule block, optional (rule elseBlock)])]
  | elseBlock => any
      [wrongBlock [keyword "else"], all [keyword "else", must (.mark ":"), rule block]]
  | whileStatement =>
    let head := [keyword "while", rule namedExpression]
    any
      [wrongHead head, all (head ++ [mark ":", rule block, optional (rule elseBlock)])]
  | forStatement => any
      [wrongHead [keyword "for", rule targets, keyword "in", rule starExpressions],
       all [keyword "for", rule targets, keyword "in", commit, unstarred (rule starExpressions),
         mark ":", rule block, optional (rule elseBlock)],
       only .wrong (rule wrongLoopTarget)]
  | wrongLoopTarget => wrong (.target .loop) [skip (keyword "for"), rule starExpressions]
  | withStatement =>
    let target := optional (all [keyword "as", rule target])
    let bare := [keyword "with", Peg.list (all [rule expression, target])]
    let bracketed := [keyword "with", mark "(", Peg.list (all [rule expressions, target]),
      optional (mark ","), mark ")"]
    any
      [wrongBlock bare, wrongBlock bracketed,
       all [keyword "with", mark "(", Peg.list (rule withItem), optional (mark ","), mark ")",
         mark ":", rule block],
       all [keyword "with", Peg.list (rule withItem), mark ":", rule block],
       only .wrong (wrong .furthest (bare ++ [newline])),
       only .wrong (wrong .furthest (bracketed ++ [newline]))]
  | withItem =>
    let ending := ahead (any [mark ",", mark ")", mark ":"])
    any
      [all [rule expression, keyword "as", rule target, ending],
       only .wrong (wrong (.target .assign)
         [skip (rule expression), skip (keyword "as"), rule expression, ending]),
       rule expression]
  | tryStatement =>
    let head := [keyword "try", must (.mark ":"), rule block]
    any
      [wrongBlock [keyword "try"],
       only .wrong (wrong .furthest [keyword "try", mark ":", rule block,
         notAhead (any [keyword "except", keyword "finally"])]),
       all (head ++ [rule finallyBlock]),
       all (head ++ [Peg.some (rule exceptBlock), optional (rule elseBlock),
         optional (rule finallyBlock)])]
  | exceptBlock =>
    let caught := [keyword "except", optional (mark "*"), rule expression, Peg.asName]
    any
      [wrongBlock caught, wrongBlock [keyword "except"],
       all (caught ++ [mark ":", rule block]), all [keyword "except", mark ":", rule block],
       only .wrong (any
         [wrong .first [skip (keyword "except"), skip (optional (mark "*")), rule expression,
            mark ",", rule expressions, Peg.asName, mark ":"],
          wrong .furthest (caught ++ [newline]),
          wrong .furthest [keyword "except", newline],
          wrong .furthest [keyword "except", mark "*", any [newline, mark ":"]]])]
  | finallyBlock => any
      [wrongBlock [keyword "finally"], all [keyword "finally", must (.mark ":"), rule block]]
  -- expressions and their operators
  | expressions => seriesOf expression
  | expression => any
      [only .wrong (rule wrongExpression),
       only .wrong (wrong .statementName [name, notAhead (mark "("), rule starExpressions]),
       rule quietExpression]
  | quietExpression => form .whole (any
      [all [rule disjunction, keyword "if", rule disjunction, keyword "else", rule expression],
       rule disjunction, rule lambda])
  | wrongExpression => any
      [wrong .neighbours [notAhead (any [all [name, token .text], token .softKeyword]),
         rule disjunction, quiet (rule quietExpression)],
       wrong .first [rule disjunction, keyword "if", rule disjunction,
         notAhead (any [keyword "else", mark ":"])]]
  | yielding => form .whole (any
      [all [keyword "yield", keyword "from", rule expression],
       all [keyword "yield", optional (unstarred (rule starExpressions))]])
  | starExpressions => seriesOf starExpression
  | starExpression => any
      [form .starred (all [skip (mark "*"), rule arithmetic]), rule expression]
  | starNamedExpressions => all [Peg.list (rule starNamedExpression), optional (skip (mark ","))]
  | starNamedExpression => any
      [form .starred (all [skip (mark "*"), rule arithmetic]), rule namedExpression]
  | assignmentExpression => form .other (all [name, mark ":=", commit, rule expression])
  | namedExpression => any
      [rule assignmentExpression, only .wrong (rule wrongNamedExpression),
       all [rule expression, notAhead (mark ":=")]]
  | wrongNamedExpression =>
    let ending := notAhead (any [mark "=", mark ":="])
    any
      [wrong .first [rule expression, mark ":=", rule expression],
       wrong .first [name, mark "=", rule arithmetic, ending],
       wrong .first [notAhead (any [rule list, rule tuple, rule generator, keyword "True",
           keyword "None", keyword "False"]),
         rule arithmetic, mark "=", rule arithmetic, ending]]
  | argumentExpression => any
      [rule assignmentExpression, all [rule expression, notAhead (mark ":=")]]
  | disjunction => form .whole
      (all [rule inversion, many (all [any [keyword "and", keyword "or"], rule inversion])])
  | inversion => form .whole
      (any [all [keyword "not", rule inversion], rule comparison])
  | comparison => form .comparison (all [rule arithmetic, many (any
      ((comparisonMarks.map fun s => all [mark s, rule arithmetic]) ++
       [all [keyword "not", keyword "in", rule arithmetic], all [keyword "in", rule arithmetic],
        all [keyword "is", keyword "not", rule arithmetic],
        all [keyword "is", rule arithmetic]]))])
  | arithmetic => form .whole
      (all [rule factor, many (all [any (arithmeticMarks.map mark), rule factor])])
  | factor => form .whole (any
      [all [any [mark "+", mark "-", mark "~"], rule factor], rule power])
  | power => form .whole
      (all [optional (keyword "await"), rule primary, optional (all [mark "**", rule factor])])
  | primary => form .applied (all [rule atom, many (rule trailer)])
  | trailer => any
      [form .place (all [mark ".", name]), form .other (rule generator),
       form .other (all [mark "(", optional (rule arguments), mark ")"]),
       form .place (all [mark "[", rule slices, mark "]"])]
  | slices => any
      [all [rule slice, notAhead (mark ",")],
       all [Peg.list (any [rule slice, rule starredArg]), optional (mark ",")]]
  | slice => any
      [all [optional (rule expression), mark ":", optional (rule expression),
         optional (all [mark ":", optional (rule expression)])],
       rule namedExpression]
  | lambda => form .other
      (all [keyword "lambda", optional (all [Peg.list (any
         [all [name, optional (all [mark "=", rule expression])], mark "/",
          all [mark "*", optional name], all [mark "**", name]]), optional (mark ",")]),
         mark ":", rule expression])
  -- operands in brackets, comprehensions and arguments
  | atom => any
      [name, keyword "True", keyword "False", keyword "None", texts, token .number,
       all [ahead (mark "("), any [rule tuple, rule group, rule generator]],
       all [ahead (mark "["), any [rule list, rule listComprehension]],
       all [ahead (mark "\x7b"),
         any [rule dict, rule set, rule dictComprehension, rule setComprehension]],
       mark "..."]
  | group => any
      [all [skip (mark "("), any [rule yielding, rule namedExpression], skip (mark ")")],
       only .wrong (rule wrongGroup)]
  | wrongGroup => any
      [wrong .first [skip (mark "("), rule starredArg, mark ")"],
       wrong .first [skip (mark "("), mark "**", rule expression, mark ")"]]
  | list => form .series
      (all [skip (mark "["), optional (rule starNamedExpressions), skip (mark "]")])
  | tuple => form .series
      (all [skip (mark "("),
        optional (all [rule starNamedExpression, skip (mark ","),
          optional (rule starNamedExpressions)]), skip (mark ")")])
  | set => form .other
      (all [mark "\x7b", rule starNamedExpressions, mark "\x7d"])
  | dict => form .other (any
      [all [mark "\x7b", optional (rule pairs), mark "\x7d"],
       all [mark "\x7b", only .wrong (rule wrongPairs), mark "\x7d"]])
  | pairs => all [Peg.list (rule pair), optional (mark ",")]
  | pair => any
      [all [mark "**", rule arithmetic], all [rule expression, mark ":", rule expression]]
  | wrongPairs => any
      [all [Peg.list (rule pair), mark ",", only .wrong (rule wrongPair)],
       wrong .first [skip (rule expression), skip (mark ":"), mark "*", rule arithmetic],
       wrong .first [skip (rule expression), mark ":", ahead (any [mark "\x7d", mark ","])]]
  | wrongPair => any
      [wrong .first [rule expression, notAhead (mark ":")],
       wrong .first [skip (rule expression), skip (mark ":"), mark "*", rule arithmetic],
       wrong .first [skip (rule expression), mark ":", ahead (any [mark "\x7d", mark ","])]]
  | clauses => Peg.some (rule clause)
  | clause => any
      [all [keyword "for", rule targets, keyword "in", commit, rule disjunction,
         many (all [keyword "if", rule disjunction])],
       only .wrong (rule wrongLoopTarget)]
  | listComprehension => any
      [form .other (all [mark "[", rule namedExpression, rule clauses, mark "]"]),
       only .wrong (rule wrongComprehension)]
  | setComprehension => any
      [form .other (all [mark "\x7b", rule namedExpression, rule clauses, mark "\x7d"]),
       only .wrong (rule wrongComprehension)]
  | dictComprehension => any
      [form .other (all [mark "\x7b", rule expression, mark ":", rule expression, rule clauses,
         mark "\x7d"]),
       only .wrong (wrong .first [skip (mark "\x7b"), mark "**", rule arithmetic, rule clauses,
         mark "\x7d"])]
  | generator => any
      [form .other (all [mark "(", rule argumentExpression, rule clauses, mark ")"]),
       only .wrong (rule wrongComprehension)]
  | wrongComprehension =>
    let opened := skip (any [mark "[", mark "\x7b"])
    any
      [wrong .first [skip (any [mark "[", mark "(", mark "\x7b"]), rule starredArg, rule clauses],
       wrong .first [opened, rule starNamedExpression, mark ",", rule starNamedExpressions,
         rule clauses],
       wrong .first [opened, rule starNamedExpression, mark ",", rule clauses]]
  | arguments => any
      [all [rule args, optional (mark ","), ahead (mark ")")], only .wrong (rule wrongArguments)]
  | args => any
      [all [Peg.list (any [rule starredArg, all [rule argumentExpression, notAhead (mark "=")]]),
         optional (all [mark ",", rule keywordArgs])],
       rule keywordArgs]
  | keywordArgs => any
      [all [Peg.list (rule keywordOrStarred), mark ",", Peg.list (rule keywordOrDoubleStarred)],
       Peg.list (rule keywordOrStarred), Peg.list (rule keywordOrDoubleStarred)]
  | starredArg => form .starred (all [skip (mark "*"), rule expression])
  | keywordOrStarred => any
      [only .wrong (rule wrongKeyword), form .other (all [name, mark "=", rule expression]),
       rule starredArg]
  | keywordOrDoubleStarred => any
      [only .wrong (rule wrongKeyword), form .other (all [name, mark "=", rule expression]),
       form .other (all [mark "**", rule expression])]
  | wrongArguments => any
      [wrong .first [form .other (rule args), mark ",", mark "*"],
       wrong .first [rule expression, rule clauses, mark ",",
         optional (any [rule args, all [rule expression, rule clauses]])],
       wrong .first [name, mark "=", rule expression, rule clauses],
       wrong .lastOfMany [rule args, skip (rule clauses)],
       wrong .first [skip (rule args), skip (mark ","), rule expression, rule clauses],
       wrong .furthest [rule args, mark ",", rule args]]
  | wrongKeyword => any
      [wrong .first [any [keyword "True", keyword "False", keyword "None"], mark "="],
       wrong .first [name, mark "=", rule expression, rule clauses],
       wrong .first [notAhead (all [name, mark "="]), rule expression, mark "="]]
  -- targets of assignments and deletions
  | targets => any
      [all [rule target, notAhead (mark ",")],
       form .series (all [rule target, many (all [skip (mark ","), rule target]),
         optional (skip (mark ","))])]
  | target => any
      [form .starred (all [skip (mark "*"), notAhead (mark "*"), rule target]), rule plainTarget]
  | plainTarget => any [form .place lastPlace, rule targetAtom]
  | targetAtom => any
      [name, form .other (all [mark "(", rule plainTarget, mark ")"]),
       form .other (all [mark "(", optional (any
         [all [rule target, Peg.some (all [mark ",", rule target]), optional (mark ",")],
          all [rule target, mark ","]]), mark ")"]),
       form .other (all [mark "[", optional (all [Peg.list (rule target), optional (mark ",")]),
         mark "]"])]
  | singleTarget => any
      [rule singlePlace, name, all [mark "(", rule singleTarget, mark ")"]]
  | singlePlace => lastPlace
  | targetPrimary => form .other
      (all [rule atom, ahead (rule targetMore),
        many (all [any [all [mark ".", name], all [mark "[", rule slices, mark "]"],
            rule generator, all [mark "(", optional (rule arguments), mark ")"]],
          ahead (rule targetMore)])])
  | targetMore => any [mark "(", mark "[", mark "."]
  | deleteTargets => all [Peg.list (rule deleteTarget), optional (mark ",")]
  | deleteTarget => any [lastPlace, rule deleteAtom]
  | deleteAtom => any
      [name, all [mark "(", rule deleteTarget, mark ")"],
       all [mark "(", optional (rule deleteTargets), mark ")"],
       all [mark "[", optional (rule deleteTargets), mark "]"]]

end Rule

end FitCode.Program
