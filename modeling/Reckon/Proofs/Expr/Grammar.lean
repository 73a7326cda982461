import Reckon.Proofs.Expr.Tree
import Reckon.Token.Basic
/-!
# The grammar of expressions

Which kinds of tokens form an expression, and which tree they form:

    sum     = product { ("+" | "-") product }
    product = power { ("*" | "/" | "%") power }
    power   = primary [ "^" power ]
    primary = number | constant | "(" sum ")" | "-" primary | function "(" [ sum { "," sum } ] ")"

The chains of sums and products group to the left, so here a chain derives from a shorter one and its last operand.
-/

namespace Reckon

/-- The nonterminals of the grammar. -/
inductive Level where
  | sum
  | product
  | power
  | primary
  deriving DecidableEq, Repr

mutual

/-- Some kinds of tokens derive from a nonterminal and form a tree. -/
inductive Derives : Level → List Token.Kind → Tree → Prop
  | product {ks t} : Derives .product ks t → Derives .sum ks t
  | sumChain {ks ks' l r op} : op = .add ∨ op = .sub → Derives .sum ks l → Derives .product ks' r →
      Derives .sum (ks ++ .operator op :: ks') (.binary op l r)
  | power {ks t} : Derives .power ks t → Derives .product ks t
  | productChain {ks ks' l r op} : op = .mul ∨ op = .div ∨ op = .rem → Derives .product ks l → Derives .power ks' r →
      Derives .product (ks ++ .operator op :: ks') (.binary op l r)
  | primary {ks t} : Derives .primary ks t → Derives .power ks t
  | powerChain {ks ks' l r} : Derives .primary ks l → Derives .power ks' r →
      Derives .power (ks ++ .operator .pow :: ks') (.binary .pow l r)
  | integer (v) : Derives .primary [.integer v] (.number v)
  | decimal (v) : Derives .primary [.decimal v] (.number v)
  | constant (name v) : Derives .primary [.constant name v] (.constant name v)
  | group {ks t} : Derives .sum ks t → Derives .primary (.leftParen :: (ks ++ [.rightParen])) t
  | negate {ks t} : Derives .primary ks t → Derives .primary (.operator .sub :: ks) (.negate t)
  | bareCall (name) : Derives .primary [.function name, .leftParen, .rightParen] (.call name [])
  | call {ks args} (name) : DerivesAll ks args →
      Derives .primary (.function name :: .leftParen :: (ks ++ [.rightParen])) (.call name args)

/-- Some kinds of tokens form one tree or more, with commas between them. -/
inductive DerivesAll : List Token.Kind → List Tree → Prop
  | one {ks t} : Derives .sum ks t → DerivesAll ks [t]
  | more {ks ks' t ts} : Derives .sum ks t → DerivesAll ks' ts → DerivesAll (ks ++ .comma :: ks') (t :: ts)

end

end Reckon
