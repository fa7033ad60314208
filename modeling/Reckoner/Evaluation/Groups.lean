import Reckoner.Evaluation.Segment

set_option autoImplicit false

/- Groups, the parenthesized parts of an expression. A group is solved when its parenthesis closes,
and its value, in marks, takes its place in the group around it. The whole expression counts as a
group, so the evaluation ends when that one is solved. -/
namespace Reckoner

/-- A text behind the beginnings of the open groups around it. The innermost group is first, and
its beginning is read backwards. -/
def enclose (groups : List Text) (t : Text) : Text :=
  groups.foldl (fun t beginning => '(' :: beginning.reverseAux t) t

/-- The expression with its groups solved. `inner` and `outer` hold the beginnings of the open
groups, each with its last character first. Parentheses without a partner stay: what follows after
the whole is closed is left as it is, and so are the groups that never close. -/
def solveGroups (context : Context) (outer : List Text) (inner : Text) :
    Text → Traced Failure Text
  | [] => pure (enclose (inner :: outer) [])
  | c :: r =>
    if c = '(' then solveGroups context (inner :: outer) [] r
    else if c = ')' then do
      Traced.emit (.groupFound (enclose (inner :: outer) (')' :: r)))
      let value ← solveSegment context inner.reverse
      match outer with
      | [] => return value ++ r
      | beginning :: outer => solveGroups context outer (value.reverseAux beginning) r
    else solveGroups context outer (c :: inner) r

/-- The value of an expression in canonical form, before it is rounded. -/
def solveExpression (context : Context) (t : Text) : Traced Failure Float := do
  Traced.emit .evaluationStarted
  let t ← solveGroups context [] [] (t ++ [')'])
  let x ← Traced.ofExcept ((resolveOperand context t).mapError .fault)
  Traced.emit (.evaluated x)
  return x

end Reckoner
