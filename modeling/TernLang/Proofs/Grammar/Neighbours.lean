import Mathlib.Data.List.Chain
import TernLang.Proofs.Grammar

/-! # Numbers are not followed by names

The lexer takes `5x` for a number and a name. **No program has a number and a name side by
side** (`Declarations.apart`): what follows an expression is a symbol or a keyword. So the
claim is made of each phrase together with what stands behind it: an expression needs
something behind it that does not start with a name, and a statement needs nothing.
-/

namespace TernLang

def TokenKind.isNumber : TokenKind → Bool
  | .number _ _ => true
  | _ => false

def TokenKind.isIdentifier : TokenKind → Bool
  | .identifier _ => true
  | _ => false

/-- No name comes next to a number. -/
def NamesApart (tokens : List Token) : Prop :=
  tokens.IsChain fun token next => token.kind.isNumber = true → next.kind.isIdentifier = false

/-- The tokens can stand behind an expression: they do not start with a name. -/
structure Closed (rest : List Token) : Prop where
  apart : NamesApart rest
  starts : ∀ token ∈ rest.head?, token.kind.isIdentifier = false

variable {token : Token} {rest : List Token}

/-- Anything may stand in front of closed tokens. -/
theorem Closed.cons (closed : Closed rest) (token : Token) : NamesApart (token :: rest) := by
  cases rest with
  | nil => exact .singleton token
  | cons next more => exact .cons_cons (fun _ => closed.starts next rfl) closed.apart

/-- Anything but a number may stand in front of tokens. -/
theorem NamesApart.cons (apart : NamesApart rest) (other : token.kind.isNumber = false) :
    NamesApart (token :: rest) := by
  cases rest with
  | nil => exact .singleton token
  | cons next more =>
      refine .cons_cons (fun number => ?_) apart
      rw [other] at number
      cases number

/-- Symbols and keywords close what stands in front of them. -/
theorem NamesApart.closed (apart : NamesApart rest) (other : token.kind.isNumber = false)
    (noName : token.kind.isIdentifier = false) : Closed (token :: rest) where
  apart := apart.cons other
  starts := by
    rintro next ⟨⟩
    exact noName

/-- In tokens that are apart, no name is behind a number. -/
theorem NamesApart.getElem? {tokens : List Token} (apart : NamesApart tokens) {place : Nat}
    {number next : Token} (first : tokens[place]? = some number)
    (second : tokens[place + 1]? = some next) (isNumber : number.kind.isNumber = true) :
    next.kind.isIdentifier = false := by
  obtain ⟨inside, rfl⟩ := List.getElem?_eq_some_iff.mp second
  obtain ⟨inside', rfl⟩ := List.getElem?_eq_some_iff.mp first
  exact apart.getElem place inside isNumber

namespace Grammar

variable {tokens others : List Token}

/-! ## Expressions -/

mutual

/-- In an expression in front of a token that closes it, no two names are neighbours. -/
theorem Expression.apart {level : Level} {tokens : List Token} {tree : Expr} :
    Expression level tokens tree → ∀ {rest}, Closed rest → NamesApart (tokens ++ rest)
  | .assign value, rest, closed => ((value.apart closed).closed rfl rfl).cons _
  | .increment, rest, closed => (closed.apart.closed rfl rfl).cons _
  | .ofDisjunction inner, rest, closed => inner.apart closed
  | .repetition _ first more, rest, closed => by
      rw [List.append_assoc]
      exact first.apart (more.closed closed)
  | .unary operand, rest, closed => (operand.apart closed).cons rfl
  | .ofCall inner, rest, closed => inner.apart closed
  | .number, rest, closed => closed.cons _
  | .string, rest, closed => closed.cons _
  | .true, rest, closed => closed.cons _
  | .false, rest, closed => closed.cons _
  | .null, rest, closed => closed.cons _
  | .name, rest, closed => closed.cons _
  | .grouping inner, rest, closed => by
      simpa using (inner.apart (closed.apart.closed rfl rfl)).cons rfl
  | .list elements, rest, closed => by
      simpa using (elements.apart (closed.apart.closed rfl rfl)).cons rfl

/-- The rest of a chain of operators begins with an operator, or with what follows the
chain. -/
theorem Repetition.closed {level : Level} {left tree : Expr} {others : List Token} :
    Repetition level left others tree → ∀ {rest}, Closed rest → Closed (others ++ rest)
  | .done, rest, closed => closed
  | .logical right more, rest, closed => by
      simpa using (right.apart (more.closed closed)).closed rfl rfl
  | .binary right more, rest, closed => by
      simpa using (right.apart (more.closed closed)).closed rfl rfl
  | .call arguments more, rest, closed => by
      simpa using (arguments.apart ((more.closed closed).apart.closed rfl rfl)).closed rfl rfl
  | .member more, rest, closed => ((more.closed closed).cons _).closed rfl rfl
  | .index position more, rest, closed => by
      simpa using (position.apart ((more.closed closed).apart.closed rfl rfl)).closed rfl rfl
  | .slice first last more, rest, closed => by
      simpa using (first.apart
        ((last.apart ((more.closed closed).apart.closed rfl rfl)).closed rfl rfl)).closed rfl rfl

theorem Items.apart {tokens : List Token} {trees : List Expr} :
    Items tokens trees → ∀ {rest}, Closed rest → NamesApart (tokens ++ rest)
  | .last item, rest, closed => item.apart closed
  | .more item more, rest, closed => by
      simpa using item.apart ((more.apart closed).closed rfl rfl)

theorem Arguments.apart {tokens : List Token} {trees : List Expr} :
    Arguments tokens trees → ∀ {rest}, Closed rest → NamesApart (tokens ++ rest)
  | .none, rest, closed => closed.apart
  | .some items _, rest, closed => items.apart closed

theorem Elements.apart {tokens : List Token} {trees : List Expr} :
    Elements tokens trees → ∀ {rest}, Closed rest → NamesApart (tokens ++ rest)
  | .none, rest, closed => closed.apart
  | .some items, rest, closed => items.apart closed
  | .comma items, rest, closed => by
      simpa using items.apart (closed.apart.closed rfl rfl)

theorem Bound.apart {tokens : List Token} {tree : Option Expr} :
    Bound tokens tree → ∀ {rest}, Closed rest → NamesApart (tokens ++ rest)
  | .none, rest, closed => closed.apart
  | .some inner, rest, closed => inner.apart closed

end

/-! ## Statements -/

theorem Parameters.apart {names : List String} (params : Parameters tokens names)
    (apart : NamesApart rest) : NamesApart (tokens ++ rest) := by
  induction params with
  | last => exact apart.cons rfl
  | more _ ih => exact (ih.cons rfl).cons rfl

theorem ParameterList.apart {names : List String} (params : ParameterList tokens names)
    (apart : NamesApart rest) : NamesApart (tokens ++ rest) := by
  cases params with
  | none => exact apart
  | some params _ => exact params.apart apart

theorem Variable.apart {name : String} {initial : Option Expr}
    (declared : Variable tokens name initial) (apart : NamesApart rest) :
    NamesApart (tokens ++ rest) := by
  cases declared with
  | plain => exact (apart.cons rfl).cons rfl
  | initial value => simpa using ((value.apart (apart.closed rfl rfl)).cons rfl).cons rfl

theorem Initial.apart {initial : Option Stmt} (first : Initial tokens initial)
    (apart : NamesApart rest) : NamesApart (tokens ++ rest) := by
  cases first with
  | none => exact apart.cons rfl
  | varDecl declared => exact (declared.apart apart).cons rfl
  | expression inner => simpa using inner.apart (apart.closed rfl rfl)

mutual

/-- No two names are neighbours in a declaration, and none is one with what follows. -/
theorem Declaration.apart {tokens : List Token} {tree : Stmt} :
    Declaration tokens tree → ∀ {rest}, NamesApart rest → NamesApart (tokens ++ rest)
  | .function params body, rest, apart => by
      simp only [List.cons_append, List.append_assoc]
      refine (((params.apart ?_).cons rfl).cons rfl).cons rfl
      exact ((body.apart (apart.cons rfl)).cons rfl).cons rfl
  | .varDecl declared, rest, apart => (declared.apart apart).cons rfl
  | .statement inner, rest, apart => inner.apart apart

/-- No two names are neighbours in a statement, and none is one with what follows. -/
theorem Statement.apart {dangling : Bool} {tokens : List Token} {tree : Stmt} :
    Statement dangling tokens tree → ∀ {rest}, NamesApart rest → NamesApart (tokens ++ rest)
  | .expression inner, rest, apart => by
      simpa using inner.apart (apart.closed rfl rfl)
  | .print value, rest, apart => by
      simpa using (value.apart (apart.closed rfl rfl)).cons rfl
  | .returnValue value, rest, apart => by
      simpa using (value.apart (apart.closed rfl rfl)).cons rfl
  | .block body, rest, apart => by
      simpa using (body.apart (apart.cons rfl)).cons rfl
  | .ifThen condition branch, rest, apart => by
      simp only [List.cons_append, List.append_assoc]
      exact ((condition.apart ((branch.apart apart).closed rfl rfl)).cons rfl).cons rfl
  | .ifElse condition branch other, rest, apart => by
      simp only [List.cons_append, List.append_assoc]
      refine ((condition.apart (NamesApart.closed ?_ rfl rfl)).cons rfl).cons rfl
      exact branch.apart ((other.apart apart).cons rfl)
  | .whileLoop condition body, rest, apart => by
      simp only [List.cons_append, List.append_assoc]
      exact ((condition.apart ((body.apart apart).closed rfl rfl)).cons rfl).cons rfl
  | .forLoop first test change body, rest, apart => by
      simp only [List.cons_append, List.append_assoc]
      refine ((first.apart (test.apart (NamesApart.closed ?_ rfl rfl))).cons rfl).cons rfl
      exact change.apart ((body.apart apart).closed rfl rfl)

/-- **No declaration has a name next to a number.** -/
theorem Declarations.apart {tokens : List Token} {trees : List Stmt} :
    Declarations tokens trees → ∀ {rest}, NamesApart rest → NamesApart (tokens ++ rest)
  | .nil, rest, apart => apart
  | .cons first more, rest, apart => by
      rw [List.append_assoc]
      exact first.apart (more.apart apart)

end

end Grammar

end TernLang
