import TernLang.Proofs.Parser.Simulation

/-! # Comparing two parses of an expression

**Every level of expressions agrees with itself** under any simulation: on
cursors that correspond it gives trees that correspond, one theorem for each
loop and each level.
-/

namespace TernLang.Parse

variable {S : Simulation}

/-! ## Loops and clauses -/

theorem chain_agrees {γ : Type} {pick : TokenKind → Option γ}
    {join : Expr → Token → γ → Expr → Expr} {p q : Parse Expr}
    (commutes : ∀ left token op right,
      join (left.mapLines S.lines) (token.mapLine S.lines) op (right.mapLines S.lines) =
        (join left token op right).mapLines S.lines)
    (operand : Agrees S (Expr.mapLines S.lines) p q) (size : Nat) (left : Expr) :
    Agrees S (Expr.mapLines S.lines) (chain pick join p size left)
      (chain pick join q size (left.mapLines S.lines)) := by
  induction size generalizing left with
  | zero => exact .pure left
  | succ size ih =>
      refine peek_agrees.bind fun token => ?_
      rw [Token.mapLine_kind]
      cases pick token.kind with
      | none => exact .pure left
      | some op =>
          refine next_agrees.bind fun _ => operand.bind fun right => ?_
          rw [commutes]
          exact ih _

theorem arguments_agrees {p q : Parse Expr} (argument : Agrees S (Expr.mapLines S.lines) p q)
    (size : Nat) (before : List Expr) :
    Agrees S (List.map (Expr.mapLines S.lines)) (arguments p size before)
      (arguments q size (before.map (Expr.mapLines S.lines))) := by
  induction size generalizing before with
  | zero => exact .pure before
  | succ size ih =>
      have later : Agrees S (List.map (Expr.mapLines S.lines))
          (do
            let value ← p
            if ← accept .comma then arguments p size (before ++ [value])
            else pure (before ++ [value]))
          (do
            let value ← q
            if ← accept .comma then
              arguments q size (before.map (Expr.mapLines S.lines) ++ [value])
            else pure (before.map (Expr.mapLines S.lines) ++ [value])) := by
        refine argument.bind fun value => (accept_agrees .comma).bind fun more => ?_
        have appended : before.map (Expr.mapLines S.lines) ++ [value.mapLines S.lines] =
            (before ++ [value]).map (Expr.mapLines S.lines) := by simp
        rw [appended]
        exact .ite (ih _) (.pure _)
      rw [arguments, arguments, List.length_map]
      exact .ite (peek_agrees.bind fun token => (note_agrees _ token).bind fun _ => later) later

theorem finishCall_agrees {p q : Parse Expr} (argument : Agrees S (Expr.mapLines S.lines) p q)
    (size : Nat) (callee : Expr) (line : Nat) :
    Agrees S (Expr.mapLines S.lines) (finishCall p size callee line)
      (finishCall q size (callee.mapLines S.lines) (S.lines line)) := by
  unfold finishCall
  refine (at_agrees _).bind fun closed => ?_
  have later : ∀ values, Agrees S (Expr.mapLines S.lines)
      (do
        expect .rightParen .parenAfterArguments
        pure (.call callee values line))
      (do
        expect .rightParen .parenAfterArguments
        pure (.call (callee.mapLines S.lines) (values.map (Expr.mapLines S.lines))
          (S.lines line))) := by
    intro values
    exact (expect_agrees _ _).bind fun _ => .pure_of_eq (by simp [Expr.mapLines])
  exact .ite (.bind (.pure []) later) (.bind (arguments_agrees argument size []) later)

theorem finishSlice_agrees {p q : Parse Expr} (bound : Agrees S (Expr.mapLines S.lines) p q)
    (target : Expr) (first : Option Expr) (line : Nat) :
    Agrees S (Expr.mapLines S.lines) (finishSlice p target first line)
      (finishSlice q (target.mapLines S.lines) (first.map (Expr.mapLines S.lines))
        (S.lines line)) := by
  unfold finishSlice
  refine (at_agrees _).bind fun closed => ?_
  have later : ∀ last : Option Expr, Agrees S (Expr.mapLines S.lines)
      (do
        expect .rightBracket .bracketAfterSlice
        pure (.slice target first last line))
      (do
        expect .rightBracket .bracketAfterSlice
        pure (.slice (target.mapLines S.lines) (first.map (Expr.mapLines S.lines))
          (last.map (Expr.mapLines S.lines)) (S.lines line))) := by
    intro last
    exact (expect_agrees _ _).bind fun _ => .pure_of_eq (by simp [Expr.mapLines])
  exact .ite (.bind (.pure none) later) (.bind (bound.map fun _ => rfl) later)

theorem finishAccess_agrees {p q : Parse Expr} (bound : Agrees S (Expr.mapLines S.lines) p q)
    (target : Expr) (line : Nat) :
    Agrees S (Expr.mapLines S.lines) (finishAccess p target line)
      (finishAccess q (target.mapLines S.lines) (S.lines line)) := by
  unfold finishAccess
  refine (accept_agrees _).bind fun colon => .ite (finishSlice_agrees bound target none line) ?_
  refine bound.bind fun first => (accept_agrees _).bind fun colon => ?_
  refine .ite (finishSlice_agrees bound target (some first) line) ?_
  exact (expect_agrees _ _).bind fun _ => .pure_of_eq (by simp [Expr.mapLines])

theorem accesses_agrees {p q : Parse Expr} (inner : Agrees S (Expr.mapLines S.lines) p q)
    (size passes : Nat) (target : Expr) :
    Agrees S (Expr.mapLines S.lines) (accesses p size passes target)
      (accesses q size passes (target.mapLines S.lines)) := by
  induction passes generalizing target with
  | zero => exact .pure target
  | succ passes ih =>
      refine peek_agrees.bind fun token => ?_
      rw [Token.mapLine_kind, Token.mapLine_line]
      split
      · refine next_agrees.bind fun _ => ?_
        exact (finishCall_agrees inner size target token.line).bind fun _ => ih _
      · refine next_agrees.bind fun _ => (identifier_agrees _).bind fun (name, line) => ?_
        exact ih (.member target name line)
      · refine next_agrees.bind fun _ => ?_
        exact (finishAccess_agrees inner target token.line).bind fun _ => ih _
      · exact .pure target

theorem elements_agrees {p q : Parse Expr} (element : Agrees S (Expr.mapLines S.lines) p q)
    (size : Nat) (before : List Expr) :
    Agrees S (List.map (Expr.mapLines S.lines)) (elements p size before)
      (elements q size (before.map (Expr.mapLines S.lines))) := by
  induction size generalizing before with
  | zero => exact .pure before
  | succ size ih =>
      refine (at_agrees _).bind fun closed => .ite (.pure before) ?_
      refine element.bind fun value => (accept_agrees .comma).bind fun more => ?_
      have appended : before.map (Expr.mapLines S.lines) ++ [value.mapLines S.lines] =
          (before ++ [value]).map (Expr.mapLines S.lines) := by simp
      rw [appended]
      exact .ite (ih _) (.pure _)

theorem finishAssign_agrees (target : Expr) (equals : Token) (value : Expr) :
    Agrees S (Expr.mapLines S.lines) (finishAssign target equals value)
      (finishAssign (target.mapLines S.lines) (equals.mapLine S.lines)
        (value.mapLines S.lines)) := by
  cases target with
  | var name line => exact .pure (Expr.assign name value line)
  | _ => exact (note_agrees _ equals).bind fun _ => .pure _

theorem finishStep_agrees (target : Expr) (token : Token) (step : Step) :
    Agrees S (Expr.mapLines S.lines) (finishStep target token step)
      (finishStep (target.mapLines S.lines) (token.mapLine S.lines) step) := by
  cases target with
  | var name line => exact .pure (Expr.increment name step line)
  | _ => exact (note_agrees _ token).bind fun _ => .pure _

/-! ## Expressions -/

theorem joinBinary_mapLines (f : Nat → Nat) (left : Expr) (token : Token) (op : BinaryOp)
    (right : Expr) : joinBinary (left.mapLines f) (token.mapLine f) op (right.mapLines f) =
      (joinBinary left token op right).mapLines f := rfl

theorem joinLogical_mapLines (f : Nat → Nat) (left : Expr) (token : Token) (op : LogicalOp)
    (right : Expr) : joinLogical (left.mapLines f) (token.mapLine f) op (right.mapLines f) =
      (joinLogical left token op right).mapLines f := by
  simp [joinLogical, Expr.mapLines]

variable {extra : Nat}

mutual

theorem expression_agrees (allows : S.Allows extra) (size : Nat) : ∀ room,
    Agrees S (Expr.mapLines S.lines) (expression size room) (expression size (extra + room))
  | 0 => allows.tooDeep (by rintro rfl; rfl)
  | room + 1 => by
      exact assignment_agrees allows size room

theorem assignment_agrees (allows : S.Allows extra) (size : Nat) : ∀ room,
    Agrees S (Expr.mapLines S.lines) (assignment size room) (assignment size (extra + room))
  | 0 => allows.tooDeep (by rintro rfl; rfl)
  | room + 1 => by
      refine (disjunction_agrees allows size room).bind fun target => ?_
      refine peek_agrees.bind fun token => ?_
      rw [Token.mapLine_kind]
      split
      · refine next_agrees.bind fun _ => ?_
        exact (assignment_agrees allows size room).bind fun value =>
          finishAssign_agrees target token value
      · split
        · exact next_agrees.bind fun _ => finishStep_agrees target token _
        · exact .pure target

theorem disjunction_agrees (allows : S.Allows extra) (size : Nat) : ∀ room,
    Agrees S (Expr.mapLines S.lines) (disjunction size room) (disjunction size (extra + room))
  | 0 => allows.tooDeep (by rintro rfl; rfl)
  | room + 1 => by
      have operand := conjunction_agrees allows size room
      exact operand.bind fun left => chain_agrees (joinLogical_mapLines _) operand size left

theorem conjunction_agrees (allows : S.Allows extra) (size : Nat) : ∀ room,
    Agrees S (Expr.mapLines S.lines) (conjunction size room) (conjunction size (extra + room))
  | 0 => allows.tooDeep (by rintro rfl; rfl)
  | room + 1 => by
      have operand := equality_agrees allows size room
      exact operand.bind fun left => chain_agrees (joinLogical_mapLines _) operand size left

theorem equality_agrees (allows : S.Allows extra) (size : Nat) : ∀ room,
    Agrees S (Expr.mapLines S.lines) (equality size room) (equality size (extra + room))
  | 0 => allows.tooDeep (by rintro rfl; rfl)
  | 1 => allows.tooDeep (by rintro rfl; rfl)
  | room + 2 => by
      have operand := comparison_agrees allows size room
      exact operand.bind fun left => chain_agrees (joinBinary_mapLines _) operand size left

theorem comparison_agrees (allows : S.Allows extra) (size : Nat) : ∀ room,
    Agrees S (Expr.mapLines S.lines) (comparison size room) (comparison size (extra + room))
  | 0 => allows.tooDeep (by rintro rfl; rfl)
  | 1 => allows.tooDeep (by rintro rfl; rfl)
  | room + 2 => by
      have operand := term_agrees allows size room
      exact operand.bind fun left => chain_agrees (joinBinary_mapLines _) operand size left

theorem term_agrees (allows : S.Allows extra) (size : Nat) : ∀ room,
    Agrees S (Expr.mapLines S.lines) (term size room) (term size (extra + room))
  | 0 => allows.tooDeep (by rintro rfl; rfl)
  | 1 => allows.tooDeep (by rintro rfl; rfl)
  | room + 2 => by
      have operand := factor_agrees allows size room
      exact operand.bind fun left => chain_agrees (joinBinary_mapLines _) operand size left

theorem factor_agrees (allows : S.Allows extra) (size : Nat) : ∀ room,
    Agrees S (Expr.mapLines S.lines) (factor size room) (factor size (extra + room))
  | 0 => allows.tooDeep (by rintro rfl; rfl)
  | 1 => allows.tooDeep (by rintro rfl; rfl)
  | room + 2 => by
      have operand := unary_agrees allows size room
      exact operand.bind fun left => chain_agrees (joinBinary_mapLines _) operand size left

theorem unary_agrees (allows : S.Allows extra) (size : Nat) : ∀ room,
    Agrees S (Expr.mapLines S.lines) (unary size room) (unary size (extra + room))
  | 0 => allows.tooDeep (by rintro rfl; rfl)
  | room + 1 => by
      refine peek_agrees.bind fun token => ?_
      rw [Token.mapLine_kind]
      split
      · refine next_agrees.bind fun _ => ?_
        exact (unary_agrees allows size room).bind fun right => .pure_of_eq rfl
      · exact call_agrees allows size room

theorem call_agrees (allows : S.Allows extra) (size : Nat) : ∀ room,
    Agrees S (Expr.mapLines S.lines) (call size room) (call size (extra + room))
  | 0 => allows.tooDeep (by rintro rfl; rfl)
  | room + 1 => by
      exact (primary_agrees allows size room).bind fun target =>
        accesses_agrees (bracketed_agrees allows size room) size size target

theorem bracketed_agrees (allows : S.Allows extra) (size : Nat) : ∀ room,
    Agrees S (Expr.mapLines S.lines) (bracketed size room) (bracketed size (extra + room))
  | 0 => allows.tooDeep (by rintro rfl; rfl)
  | room + 1 => by
      exact expression_agrees allows size room

theorem primary_agrees (allows : S.Allows extra) (size : Nat) : ∀ room,
    Agrees S (Expr.mapLines S.lines) (primary size room) (primary size (extra + room))
  | 0 => allows.tooDeep (by rintro rfl; rfl)
  | room + 1 => by
      have inner := expression_agrees allows size room
      refine peek_agrees.bind fun token => ?_
      rw [Token.mapLine_kind]
      split
      case h_7 =>
        refine next_agrees.bind fun _ => inner.bind fun expr => ?_
        exact (expect_agrees _ _).bind fun _ => .pure_of_eq rfl
      case h_8 =>
        refine next_agrees.bind fun _ => (elements_agrees inner size []).bind fun values => ?_
        exact (expect_agrees _ _).bind fun _ => .pure_of_eq (by simp [Expr.mapLines])
      case h_9 => exact fail_agrees _
      all_goals exact next_agrees.bind fun _ => .pure_of_eq rfl

end

end TernLang.Parse
