import AgentCraft.Python.JsonLoads

/-!
# Numbers of JSON texts as Python compares them

`==` compares the exact values: of an integer, of a boolean, which is an integer, and of a float, which is
the double next to what is written.
-/

namespace AgentCraft.Python

/-- The nearest integer, the even one of two. -/
def roundHalfEven (q : ℚ) : ℤ :=
  if q - ⌊q⌋ < 1 / 2 then ⌊q⌋
  else if 1 / 2 < q - ⌊q⌋ then ⌊q⌋ + 1
  else if ⌊q⌋ % 2 = 0 then ⌊q⌋ else ⌊q⌋ + 1

/-- The double next to a number; none if that is infinite. -/
def toDouble (q : ℚ) : Option ℚ :=
  let ulp : ℚ := 2 ^ (max (Int.log 2 |q|) (-1022) - 52)
  let d := roundHalfEven (q / ulp) * ulp
  if (2 : ℚ) ^ 1024 ≤ |d| then none else some d

/-- The number that is written, without its sign. -/
def NumberText.magnitude (n : NumberText) : ℚ :=
  let exponent : ℤ := match n.power with
    | _ :: '-' :: digits => -decimalNumber digits
    | _ :: '+' :: digits => decimalNumber digits
    | _ :: digits => decimalNumber digits
    | [] => 0
  decimalNumber (n.whole ++ n.point.tail) * 10 ^ (exponent - n.point.tail.length)

/-- `float(literal)`; none for what is no finite number. -/
def floatValue (literal : List Char) : Option ℚ :=
  let n := numberText literal
  if n.whole = [] then none else toDouble (if n.sign = [] then n.magnitude else -n.magnitude)

/-- `v == i` for an integer. -/
def Json.equalsInt (i : ℤ) : Json → Bool
  | .int j => j = i
  | .bool b => (if b then 1 else 0) = i
  | .float literal => floatValue literal = some (i : ℚ)
  | _ => false

end AgentCraft.Python
