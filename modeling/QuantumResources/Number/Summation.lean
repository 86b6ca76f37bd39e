/-! Sums of doubles in fixed orders, because each addition rounds.

Long sums are halved, and short ones run in several parts side by side, so that rounding errors
grow slowly. -/

namespace QuantumResources.Summation

def sequential (values : List Float) : Float := values.foldl (· + ·) 0.0

/-- Eight running sums, and the values that are left over. -/
def eights : List Float → List Float → List Float × List Float
  | sums, a :: b :: c :: d :: e :: f :: g :: h :: rest =>
    eights (sums.zipWith (· + ·) [a, b, c, d, e, f, g, h]) rest
  | sums, rest => (sums, rest)

/-- A sum of up to 128 values. -/
def block (values : List Float) : Float :=
  match values with
  | a :: b :: c :: d :: e :: f :: g :: h :: rest =>
    match eights [a, b, c, d, e, f, g, h] rest with
    | ([a, b, c, d, e, f, g, h], rest) =>
      rest.foldl (· + ·) (((a + b) + (c + d)) + ((e + f) + (g + h)))
    | (sums, rest) => sequential (sums ++ rest)
  | _ => sequential values

/-- Where a long sum is halved: at a multiple of eight. -/
def middle (count : Nat) : Nat := count / 2 - count / 2 % 8

/-- The sum of the halves of a long list. -/
def pairwise (values : List Float) : Float :=
  if values.length ≤ 128 then block values
  else
    pairwise (values.take (middle values.length)) + pairwise (values.drop (middle values.length))
termination_by values.length
decreasing_by all_goals simp only [List.length_take, List.length_drop, middle]; omega

/-- Two running sums of the values at even and at odd places; where eight values are left, their
four pairs are added first. -/
def lanes : Float × Float → List Float → Float × Float
  | (x, y), a :: b :: c :: d :: e :: f :: g :: h :: rest =>
    lanes ((((a + c) + (e + g)) + x), (((b + d) + (f + h)) + y)) rest
  | (x, y), a :: b :: rest => lanes (a + x, b + y) rest
  | (x, y), [a] => (a + x, y)
  | sums, [] => sums

def interleaved (values : List Float) : Float :=
  let (x, y) := lanes (0.0, 0.0) values
  x + y

/-- As `lanes`, but where eight values are left they are added from the last pair on. -/
def productLanes : Float × Float → List Float → Float × Float
  | (x, y), a :: b :: c :: d :: e :: f :: g :: h :: rest =>
    productLanes (a + (c + (e + (g + x))), b + (d + (f + (h + y)))) rest
  | (x, y), a :: b :: rest => productLanes (a + x, b + y) rest
  | (x, y), [a] => (a + x, y)
  | sums, [] => sums

/-- The sum of the products of two lists. -/
def dot (a b : List Float) : Float :=
  let (x, y) := productLanes (0.0, 0.0) (a.zipWith (· * ·) b)
  x + y

/-- The sum over all pairs of rows of the sums of their products. -/
def grandSum (rows : List (List Float)) : Float :=
  match rows with
  | [_] :: _ =>
    let column := interleaved (rows.map fun row => row.headD 0.0)
    rows.foldl (fun total row => total + row.headD 0.0 * column) 0.0
  | _ => rows.foldl (fun total a => rows.foldl (fun total b => total + dot b a) total) 0.0

end QuantumResources.Summation
