import TernLang.Proofs.Parser.Layers
import TernLang.Proofs.Parser.Recovery

/-! # A bad statement does not spoil the others

**A simple statement that cannot be parsed is isolated** (`simple_statement_isolated`):
the statements before and after it are parsed as if it were not there, and its mistakes
are the only ones that are added. This also holds inside of every block, be it a statement
itself, the body of a function or a loop, or a branch of an `if`, however deeply nested,
and for a statement that lacks its semicolon in front of a closing brace.

A block of a program is given by the program without the statements of the block
(`Parse.Gap`). What it is parsed to are the layers around the block, which are the same
whatever stands in it.
-/

namespace TernLang

open Grammar Parse

section Simple

variable {room : Nat} {before simple : List Token}

/-- A simple statement stands for what it is parsed to alone: one statement of the grammar
at most, or some mistakes. -/
theorem Parse.SimpleTokens.stands_alone (plain : SimpleTokens simple) (enough : 5 ≤ room)
    (line : Nat) :
    let alone := parse room (simple ++ [sym .semicolon line])
    Stands room (simple ++ [sym .semicolon line]) alone.statements alone.errors
        (fun _ _ => True) ∧
      alone.statements.length ≤ 1 ∧ (alone.statements = [] → alone.errors ≠ []) := by
  obtain ⟨stmt, errors, mistaken, stands⟩ := plain.stands enough line
  have parsed := stands.parse_eq trivial enough
  simp only [parsed]
  refine ⟨stands, by cases stmt <;> simp, fun none => mistaken ?_⟩
  simpa using none

/-- Without a mistake, a simple statement is one of the grammar. -/
theorem Parse.SimpleTokens.grammatical (plain : SimpleTokens simple) (enough : 5 ≤ room)
    {line : Nat} (clean : (parse room (simple ++ [sym .semicolon line])).errors = []) :
    ∃ tree, Declaration (simple ++ [sym .semicolon line]) tree := by
  obtain ⟨-, single, some⟩ := plain.stands_alone enough line
  have inner : ∀ token ∈ simple ++ [sym .semicolon line], token.kind ≠ .endOfInput := by
    intro token mem
    rcases List.mem_append.mp mem with inside | last
    · exact (inner_of_separates (plain.plain token inside)).1
    · cases List.mem_singleton.mp last
      nofun
  have phrases := Accepted.declarations ⟨inner, clean⟩ enough
  generalize (parse room (simple ++ [sym .semicolon line])).statements = trees at *
  generalize simple ++ [sym .semicolon line] = tokens at phrases ⊢
  cases phrases with
  | nil => exact absurd clean (some rfl)
  | cons phrase rest =>
      cases rest with
      | nil => exact ⟨_, by simpa using phrase⟩
      | cons => exact absurd single (by simp)

/-- The part in front of a simple statement is kept, and so is what follows it. -/
theorem Parse.Accepted.stands_simple (accepted : Accepted room before)
    (plain : SimpleTokens simple) (enough : 5 ≤ room) (line : Nat) :
    let alone := parse room (simple ++ [sym .semicolon line])
    Stands room (before ++ (simple ++ [sym .semicolon line]))
      ((parse room before).statements ++ alone.statements) alone.errors fun _ _ => True := by
  refine (accepted.stands enough).append (plain.stands_alone enough line).1 ?_
  intro blocks tail _
  rw [List.append_assoc]
  exact plain.apart (by nofun) blocks tail

/-- What is meant as a simple statement, behind an accepted part. -/
structure SimpleBehind (room : Nat) (before simple : List Token) : Prop where
  enough : 5 ≤ room
  accepted : Accepted room before
  plain : SimpleTokens simple

/-- A body that is accepted is kept in its layers, which are those of the grammar. -/
theorem Parse.Accepted.filled {gap : Gap} {front body : List Token} {whole inner : Nat}
    {layers : List Layer} (enough : 5 ≤ whole) (accepted : Accepted whole (front ++ gap.holding []))
    (content : Accepted inner body)
    (parsed : parse whole (front ++ gap.holding body) =
      ⟨enclose layers (parse inner body).statements, []⟩) :
    Declarations (front ++ gap.holding body) (enclose layers (parse inner body).statements) := by
  have filled : Accepted whole (front ++ gap.holding body) := by
    refine ⟨fun token mem => ?_, by rw [parsed]⟩
    have outside := accepted.inner token
    have inside := content.inner token
    simp only [Gap.holding, List.mem_append, List.mem_cons, List.nil_append] at mem outside
    tauto
  simpa [parsed] using filled.declarations enough

/-- **A bad simple statement is isolated.** Let some tokens be accepted, and let what is
meant as a simple statement follow. With its semicolon, it adds what it is parsed to
alone, one statement at most and a mistake if it is none of the grammar, and whatever
follows is parsed as if it stood alone.

The same holds in every block of an accepted program, with the room that the layers around
the block leave (`layersCost_le` says how much they take). The layers are those that the
grammar has around any body that is accepted there, and all of them are kept. A statement
that lacks its semicolon in front of the brace that closes the block adds only mistakes,
those that it has alone in front of this brace. -/
theorem simple_statement_isolated :
    (∀ {room : Nat} {before simple : List Token}, SimpleBehind room before simple →
      ∀ line : Nat, let alone := parse room (simple ++ [sym .semicolon line])
      (∀ after, parse room (before ++ (simple ++ sym .semicolon line :: after)) =
        ⟨(parse room before).statements ++ (alone.statements ++ (parse room after).statements),
          alone.errors ++ (parse room after).errors⟩) ∧
      alone.statements.length ≤ 1 ∧
      ((¬ ∃ tree, Declaration (simple ++ [sym .semicolon line]) tree) → alone.errors ≠ [])) ∧
    ∀ {gap : Gap} {front : List Token} {whole : Nat}, 5 ≤ whole →
      Accepted whole (front ++ gap.holding []) →
      ∃ (layers : List Layer) (inner : Nat), whole = inner + layersCost layers ∧
        (parse whole (front ++ gap.holding [])).statements = enclose layers [] ∧
        (5 ≤ inner → ∀ body, Accepted inner body →
          parse whole (front ++ gap.holding body) =
            ⟨enclose layers (parse inner body).statements, []⟩ ∧
          Declarations (front ++ gap.holding body)
            (enclose layers (parse inner body).statements)) ∧
        ∀ {before simple : List Token}, SimpleBehind inner before simple →
          (∀ line after, Accepted inner after →
            let alone := parse inner (simple ++ [sym .semicolon line])
            parse whole
                (front ++ gap.holding (before ++ (simple ++ sym .semicolon line :: after))) =
              ⟨enclose layers ((parse inner before).statements ++
                  (alone.statements ++ (parse inner after).statements)),
                alone.errors⟩) ∧
          (simple ≠ [] →
            let unclosed := parse inner (simple ++ [sym .rightBrace gap.closing])
            unclosed.statements = [] ∧ unclosed.errors ≠ [] ∧
            parse whole (front ++ gap.holding (before ++ simple)) =
              ⟨enclose layers (parse inner before).statements, unclosed.errors⟩) := by
  refine ⟨?_, ?_⟩
  · rintro room before simple ⟨enough, accepted, plain⟩ line alone
    obtain ⟨-, single, -⟩ := plain.stands_alone enough line
    have stands := accepted.stands_simple plain enough line
    refine ⟨fun after => ?_, single, fun wrong clean => wrong (plain.grammatical enough clean)⟩
    have follows : (fun _ _ => True : Nat → List Token → Prop) 0 after := trivial
    simpa using stands.parse_append follows enough
  · intro gap front whole enough accepted
    obtain ⟨layers, inner, cost, empty, fills⟩ := accepted.in_layers enough
    refine ⟨layers, inner, cost, empty, ?_, ?_⟩
    · intro enough' body content
      have stands := (content.stands enough').weaken
        fun _ _ (enclosed : Enclosed gap.closing _ _) => enclosed.apart
      exact ⟨fills stands, accepted.filled enough content (fills stands)⟩
    · rintro before simple ⟨enough', accepted', plain⟩
      refine ⟨fun line after content => ?_, fun some => ?_⟩
      · have stands := accepted'.stands_simple plain enough' line
        have body := stands.append (content.stands enough') fun _ _ _ => trivial
        have parsed := fills (body.weaken fun _ _ enclosed => enclosed.apart)
        simpa using parsed
      · obtain ⟨errors, mistaken, unclosed, stray⟩ := plain.stands_unclosed some enough' gap.closing
        have alone := stray.parse_eq rfl enough'
        have body := (accepted'.stands enough').append unclosed fun blocks tail enclosed => by
          obtain ⟨-, others, rfl⟩ := enclosed
          exact plain.apart (by nofun) blocks others
        simp only [alone]
        exact ⟨trivial, mistaken, by simpa using fills body⟩

end Simple

/-- In `a; b c; d;` the second statement lacks an operator, and in the block of
`def f() { if (x) p; else { a; b c } } d;` a semicolon too: the others are kept, and so is
all that is around the block. -/
theorem simple_statement_isolated_operator :
    let before := [ident "a" 1, sym .semicolon 1]
    let simple := [ident "b" 2, ident "c" 2]
    let after := [ident "d" 3, sym .semicolon 3]
    let front := [⟨.keyword .defKw, 1⟩, ident "f" 1, sym .leftParen 1, sym .rightParen 1,
      sym .leftBrace 1, ⟨.keyword .ifKw, 1⟩, sym .leftParen 1, ident "x" 1, sym .rightParen 1,
      ident "p" 1, sym .semicolon 1, ⟨.keyword .elseKw, 1⟩]
    let gap : Gap := ⟨1, 2, sym .rightBrace 2 :: after⟩
    let a := Stmt.expression (.var "a" 1) 1
    let p := Stmt.expression (.var "p" 1) 1
    let d := Stmt.expression (.var "d" 3) 3
    let mistake : SyntaxError := ⟨.missing .semicolonAfterExpression, ident "c" 2⟩
    SimpleBehind 40 before simple ∧ Accepted 80 (front ++ gap.holding []) ∧
    parse 40 (before ++ (simple ++ sym .semicolon 2 :: after)) = ⟨[a, d], [mistake]⟩ ∧
    ∃ layers inner, SimpleBehind inner before simple ∧
      enclose layers [] =
        [.funDecl "f" [] [.ifElse (.var "x" 1) p (some (.block [] 1)) 1] 1, d] ∧
      parse 80 (front ++ gap.holding (before ++ simple)) = ⟨enclose layers [a], [mistake]⟩ := by
  intro before simple after front gap a p d mistake
  have accepted : Accepted 40 before := ⟨by decide, by decide⟩
  have plain : SimpleTokens simple := by
    refine ⟨by decide, ?_, by decide⟩
    rintro token others same
    obtain ⟨rfl, -⟩ := List.cons.inj same
    decide
  have behind : SimpleBehind 40 before simple := ⟨by decide, accepted, plain⟩
  have shell : Accepted 80 (front ++ gap.holding []) := ⟨by decide, by decide⟩
  obtain ⟨between, -, -⟩ := simple_statement_isolated.1 behind 2
  obtain ⟨layers, inner, cost, empty, -, enclosed⟩ :=
    simple_statement_isolated.2 (by decide) shell
  have program : (parse 80 (front ++ gap.holding [])).statements =
      [.funDecl "f" [] [.ifElse (.var "x" 1) p (some (.block [] 1)) 1] 1, d] := by
    simp only [front, gap, after, p, d]
    rfl
  rw [program] at empty
  have bound := layersCost_le layers []
  rw [← empty] at bound
  have nodes : (Stmt.nodesAll
      [.funDecl "f" [] [.ifElse (.var "x" 1) p (some (.block [] 1)) 1] 1, d]).length = 8 := rfl
  obtain ⟨extra, rfl⟩ : ∃ extra, inner = extra + 40 := ⟨inner - 40, by omega⟩
  have same := parse_extra_room (show 5 ≤ 40 by decide)
  have behind' : SimpleBehind (extra + 40) before simple :=
    ⟨by omega, ⟨accepted.inner, by rw [same before (by decide)]; decide⟩, plain⟩
  obtain ⟨-, -, kept⟩ := (enclosed behind').2 (by decide)
  refine ⟨behind, shell, ?_, layers, extra + 40, behind', empty.symm, ?_⟩
  · rw [between]
    rfl
  · rw [kept, same before (by decide), same (simple ++ _) (by decide)]
    rfl

end TernLang
