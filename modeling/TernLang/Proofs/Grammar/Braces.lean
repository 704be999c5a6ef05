import TernLang.Parser.Cursor
import TernLang.Proofs.Grammar

/-! # Braces in phrases

**No expression holds an opening brace** (`Expression.braceless`), and neither does the
head of a statement or of a function in front of its body.

**A declaration ends with a semicolon or a closing brace** (`Declaration.ends`), so an
opening brace is never the last of its tokens.
-/

namespace TernLang

/-- There is no opening brace among the tokens. -/
def Braceless (tokens : List Token) : Prop :=
  ∀ token ∈ tokens, token.kind ≠ .symbol .leftBrace

@[simp] theorem braceless_nil : Braceless [] := nofun

@[simp] theorem braceless_cons {token : Token} {tokens : List Token} :
    Braceless (token :: tokens) ↔ token.kind ≠ .symbol .leftBrace ∧ Braceless tokens :=
  List.forall_mem_cons

@[simp] theorem braceless_append {tokens others : List Token} :
    Braceless (tokens ++ others) ↔ Braceless tokens ∧ Braceless others :=
  List.forall_mem_append

/-- The last token is a semicolon or a closing brace. -/
def EndsClosed (tokens : List Token) : Prop :=
  ∃ inner last, tokens = inner ++ [last] ∧ last.kind.endsStatement = true

/-- Only the last token decides whether a phrase ends closed. -/
theorem EndsClosed.before {tokens : List Token} (ends : EndsClosed tokens) (others : List Token) :
    EndsClosed (others ++ tokens) := by
  obtain ⟨inner, last, rfl, kind⟩ := ends
  exact ⟨others ++ inner, last, by rw [List.append_assoc], kind⟩

theorem EndsClosed.cons {tokens : List Token} (ends : EndsClosed tokens) (token : Token) :
    EndsClosed (token :: tokens) :=
  ends.before [token]

/-- A phrase whose last token is a semicolon or a closing brace ends closed. -/
theorem endsClosed_concat {token : Token} (ends : token.kind.endsStatement = true)
    (tokens : List Token) : EndsClosed (tokens ++ [token]) :=
  ⟨tokens, token, rfl, ends⟩

namespace Grammar

/-! ## Expressions -/

theorem BinaryOp.symbol_ne_leftBrace (op : BinaryOp) : op.symbol ≠ .leftBrace := by
  cases op <;> nofun

theorem UnaryOp.symbol_ne_leftBrace (op : UnaryOp) : op.symbol ≠ .leftBrace := by
  cases op <;> nofun

theorem Step.symbol_ne_leftBrace (step : Step) : step.symbol ≠ .leftBrace := by
  cases step <;> nofun

mutual

/-- No expression has an opening brace among its tokens. -/
theorem Expression.braceless {level : Level} {tokens : List Token} {tree : Expr} :
    Expression level tokens tree → Braceless tokens
  | .number | .string | .true | .false | .null | .name => by simp
  | .assign value => by simpa using value.braceless
  | .increment => by simp [Step.symbol_ne_leftBrace]
  | .ofDisjunction inner => inner.braceless
  | .repetition _ first more => braceless_append.mpr ⟨first.braceless, more.braceless⟩
  | .unary operand => by simpa [UnaryOp.symbol_ne_leftBrace] using operand.braceless
  | .ofCall inner => inner.braceless
  | .grouping inner => by simpa using inner.braceless
  | .list elements => by simpa using elements.braceless

/-- The rest of a chain of operators has no opening brace either. -/
theorem Repetition.braceless {level : Level} {left tree : Expr} {others : List Token} :
    Repetition level left others tree → Braceless others
  | .done => braceless_nil
  | .call arguments more => by simpa using ⟨arguments.braceless, more.braceless⟩
  | .member more => by simpa using more.braceless
  | .index position more => by simpa using ⟨position.braceless, more.braceless⟩
  | .slice first last more => by simpa using ⟨first.braceless, last.braceless, more.braceless⟩
  | .logical right more => by simpa using ⟨right.braceless, more.braceless⟩
  | .binary right more => by
      simpa [BinaryOp.symbol_ne_leftBrace] using ⟨right.braceless, more.braceless⟩

theorem Items.braceless {tokens : List Token} {trees : List Expr} :
    Items tokens trees → Braceless tokens
  | .last item => item.braceless
  | .more item more => by simpa using ⟨item.braceless, more.braceless⟩

theorem Arguments.braceless {tokens : List Token} {trees : List Expr} :
    Arguments tokens trees → Braceless tokens
  | .none => braceless_nil
  | .some items _ => items.braceless

theorem Elements.braceless {tokens : List Token} {trees : List Expr} :
    Elements tokens trees → Braceless tokens
  | .none => braceless_nil
  | .some items => items.braceless
  | .comma items => by simpa using items.braceless

theorem Bound.braceless {tokens : List Token} {tree : Option Expr} :
    Bound tokens tree → Braceless tokens
  | .none => braceless_nil
  | .some inner => inner.braceless

end

/-! ## Clauses -/

theorem ParameterList.braceless {tokens : List Token} {names : List String}
    (params : ParameterList tokens names) : Braceless tokens := by
  cases params with
  | none => exact braceless_nil
  | some params _ =>
      induction params with
      | last => simp
      | more _ ih => simpa using ih (Nat.le_of_succ_le ‹_›)

theorem Variable.braceless {tokens : List Token} {name : String} {initial : Option Expr}
    (declared : Variable tokens name initial) : Braceless tokens := by
  cases declared with
  | plain => simp
  | initial value => simpa using value.braceless

theorem Initial.braceless {tokens : List Token} {initial : Option Stmt}
    (first : Initial tokens initial) : Braceless tokens := by
  cases first with
  | none => simp
  | varDecl declared => simpa using declared.braceless
  | expression value => simpa using value.braceless

/-! ## Statements -/

theorem Variable.ends {tokens : List Token} {name : String} {initial : Option Expr}
    (declared : Variable tokens name initial) : EndsClosed tokens := by
  cases declared with
  | plain => exact endsClosed_concat rfl [_]
  | initial => exact ((endsClosed_concat rfl _).cons _).cons _

/-- A statement ends with a semicolon or a closing brace. -/
theorem Statement.ends {dangling : Bool} {tokens : List Token} {tree : Stmt} :
    Statement dangling tokens tree → EndsClosed tokens
  | .expression _ => endsClosed_concat rfl _
  | .print _ | .returnValue _ | .block _ => (endsClosed_concat rfl _).cons _
  | .ifThen _ branch => (((branch.ends.cons _).before _).cons _).cons _
  | .ifElse _ _ other => (((((other.ends.cons _).before _).cons _).before _).cons _).cons _
  | .whileLoop _ body => (((body.ends.cons _).before _).cons _).cons _
  | .forLoop _ _ _ body =>
      ((((((body.ends.cons _).before _).cons _).before _).before _).cons _).cons _

/-- The last token of a declaration ends it. -/
theorem Declaration.ends {tokens : List Token} {tree : Stmt} (phrase : Declaration tokens tree) :
    EndsClosed tokens := by
  cases phrase with
  | @function line name nameLine paren params names close brace tokens body braceClose =>
      have closed : EndsClosed (tokens ++ [sym .rightBrace braceClose]) :=
        endsClosed_concat rfl tokens
      exact (((((closed.cons _).cons _).before params).cons _).cons _).cons _
  | varDecl declared => exact declared.ends.cons _
  | statement inner => exact inner.ends

/-- A list of declarations is empty or ends with a semicolon or a closing brace. -/
theorem Declarations.ends {tokens : List Token} {trees : List Stmt} :
    Declarations tokens trees → tokens = [] ∨ EndsClosed tokens
  | .nil => .inl rfl
  | .cons first more => by
      rcases more.ends with rfl | ends
      · exact .inr (by simpa using first.ends)
      · exact .inr (ends.before _)

end Grammar

end TernLang
