import Wabbit.Stack.Lowering
import Wabbit.Proofs.Meaning.Expressions
import Wabbit.Proofs.Stack.Running

/-!
The code of an expression at work. Main statement: on every stack it puts the value of the expression,
in its kind, on top of what is there, after the same reads and calls as the expression has, or it ends
where the expression is undefined.
-/

namespace Wabbit

open Ast Stack
open Tac (Address)

private theorem Kind.join_of_ne {a b : Kind} (different : a ≠ b) : a.join b = .float := by
  cases a with
  | integer =>
    cases b with
    | integer => exact absurd rfl different
    | float => rfl
  | float => cases b <;> rfl

namespace Stack

open World (outcome)

variable {w : World} {α β : Type}

/-- An instruction on as many operands as it takes leaves alone what lies below them. -/
theorem run_instr {i : Instr} {operands : List Entry} (enough : operands.length = i.takes)
    (below : List Entry) (s : w.State) : run w [i] ⟨operands ++ below, s⟩ =
      ((i.perform w operands s).1, ⟨(i.perform w operands s).2.1 ++ below,
        (i.perform w operands s).2.2⟩) := by
  have present : ¬ (operands ++ below).length < i.takes := by
    simp only [List.length_append]
    omega
  have stepped : i.step w ⟨operands ++ below, s⟩ = ((i.perform w operands s).1,
      ⟨(i.perform w operands s).2.1 ++ below, (i.perform w operands s).2.2⟩) := by
    rw [Instr.step, if_neg present, ← enough, List.take_left, List.drop_left]
  rw [run, stepped]
  rcases i.perform w operands s with ⟨exit, results, t⟩
  cases exit <;> rfl

/-- Code that is run in some state, on some operands with anything below them, does what a computation
does. What is computed meets a condition and is put in the place of the operands; the code ends as
undefined where the computation does. -/
structure Performs (instrs : List Instr) (operands : List Entry) (s : w.State) (meets : α → Prop)
    (results : α → List Entry) (x : w.Evaluation α) : Prop where
  value : ∀ a t, outcome x s = (some a, t) → meets a ∧
    ∀ below, run w instrs ⟨operands ++ below, s⟩ = (.next, ⟨results a ++ below, t⟩)
  undefined : ∀ t, outcome x s = (none, t) → ∃ above, ∀ below,
    run w instrs ⟨operands ++ below, s⟩ = (.undefined, ⟨above ++ below, t⟩)

namespace Performs

variable {front back instrs : List Instr} {operands : List Entry} {s : w.State} {meets : α → Prop}
  {meets' : β → Prop} {results : α → List Entry} {results' : β → List Entry} {x : w.Evaluation α}

/-- An instruction does what a computation does if it ends in the same way. -/
theorem instr {i : Instr} (enough : operands.length = i.takes)
    (met : ∀ a t, outcome x s = (some a, t) → meets a)
    (same : i.perform w operands s = match outcome x s with
      | (some a, t) => (.next, results a, t)
      | (none, t) => (.undefined, [], t)) :
    Performs [i] operands s meets results x where
  value a t computed := by
    rw [computed] at same
    exact ⟨met a t computed, fun below => by rw [run_instr enough, same]⟩
  undefined t failed := by
    rw [failed] at same
    exact ⟨[], fun below => by rw [run_instr enough, same]⟩

/-- A value that is there already needs no code. -/
theorem done {a : α} (met : meets a) (there : operands = results a) :
    Performs [] operands s meets results (pure a) where
  value b t computed := by
    cases computed
    exact ⟨met, fun _ => by rw [there]; rfl⟩
  undefined t failed := nomatch failed

/-- Code leaves other operands alone that it finds below its own. -/
theorem above (performs : Performs instrs operands s meets results x) (others : List Entry) :
    Performs instrs (operands ++ others) s meets (fun a => results a ++ others) x where
  value a t computed := by
    obtain ⟨met, runs⟩ := performs.value a t computed
    exact ⟨met, fun below => by rw [List.append_assoc, List.append_assoc, runs]⟩
  undefined t failed := by
    obtain ⟨rest, runs⟩ := performs.undefined t failed
    exact ⟨rest ++ others, fun below => by rw [List.append_assoc, List.append_assoc, runs]⟩

/-- Two computations one after the other are done by their code one after the other. -/
theorem bind {f : α → w.Evaluation β} (first : Performs front operands s meets results x)
    (second : ∀ a t, meets a → Performs back (results a) t meets' results' (f a)) :
    Performs (front ++ back) operands s meets' results' (x >>= f) where
  value b u computed := by
    obtain ⟨a, t, begun, ended⟩ := World.outcome_bind_eq_some.mp computed
    obtain ⟨met, runs⟩ := first.value a t begun
    obtain ⟨met', runs'⟩ := (second a t met).value b u ended
    exact ⟨met', fun below => by rw [run_append, runs]; exact runs' below⟩
  undefined u failed := by
    rcases World.outcome_bind_eq_none.mp failed with begun | ⟨a, t, begun, ended⟩
    · obtain ⟨rest, runs⟩ := first.undefined u begun
      exact ⟨rest, fun below => by rw [run_append, runs]⟩
    · obtain ⟨met, runs⟩ := first.value a t begun
      obtain ⟨rest, runs'⟩ := (second a t met).undefined u ended
      exact ⟨rest, fun below => by rw [run_append, runs]; exact runs' below⟩

end Performs

end Stack

namespace Ast.Expr

variable {w : World}

/-- The operands of an operator are computed before it, the left one first. -/
theorem performs_operator {left right : Expr Symbol False} {i : Instr} {kind : Kind} {s : w.State}
    {f : Entry → Entry → w.Evaluation Entry}
    (first : ∀ s, Performs left.instrs [] s (·.kind = left.kind) ([·])
      (left.evaluate w w.emitted .ofSymbol))
    (second : ∀ s, Performs right.instrs [] s (·.kind = right.kind) ([·])
      (right.evaluate w w.emitted .ofSymbol))
    (last : ∀ x y s, Performs [i] [y, x] s (·.kind = kind) ([·]) (f x y)) :
    Performs (left.instrs ++ right.instrs ++ [i]) [] s (·.kind = kind) ([·]) (do
      let x ← left.evaluate w w.emitted .ofSymbol
      let y ← right.evaluate w w.emitted .ofSymbol
      f x y) := by
  rw [List.append_assoc]
  refine (first s).bind fun x t _ => ?_
  exact ((second t).above [x]).bind fun y u _ => last x y u

private theorem performs_arith (op : Arithmetic) (kind : Kind) (x y : Entry) (s : w.State) :
    Performs [.arith op kind] [y, x] s (·.kind = kind) ([·])
      (w.given (w.emitted.apply w op kind x y)) := by
  have same : w.operate (.arithmetic op) kind (w.convert x kind) (w.convert y kind) =
      w.emitted.apply w op kind x y := rfl
  cases result : w.emitted.apply w op kind x y with
  | none =>
    refine .instr rfl nofun ?_
    simp only [Instr.perform, Instr.perform.operator, same, result]
    rfl
  | some e =>
    obtain ⟨value, -, rfl⟩ := Option.map_eq_some_iff.mp result
    refine .instr rfl ?_ ?_
    · rintro _ _ ⟨⟩
      rfl
    · simp only [Instr.perform, Instr.perform.operator, same, result]
      rfl

private theorem performs_compare (op : Comparison) (kind : Kind) (x y : Entry) (s : w.State) :
    Performs [.compare op kind] [y, x] s (·.kind = kind) ([·]) (pure (w.compare op kind x y)) :=
  .instr rfl (by rintro _ _ ⟨⟩; rfl) rfl

private theorem performs_call (function : Symbol) {n : Nat} {values : List Entry}
    (counted : values.length = n)
    (s : w.State) :
    Performs [.call function.text n function.kind] values.reverse s (·.kind = function.kind) ([·])
      (do
        let value ← OptionT.mk fun s =>
          s.call (Named.text function) (values.map w.argument) (Named.kind function)
        pure (.number ⟨_, value⟩) : w.Evaluation Entry) := by
  refine .instr (by rw [List.length_reverse, counted]; rfl) ?_ ?_
  · intro e t computed
    obtain ⟨value, u, -, last⟩ := World.outcome_bind_eq_some.mp computed
    cases last
    rfl
  · have called : World.outcome (w := w) (OptionT.mk fun s =>
        s.call (Named.text function) (values.map w.argument) (Named.kind function)) s =
        s.call function.text (values.map w.argument) function.kind := rfl
    rw [World.outcome_bind, called, Instr.perform, List.reverse_reverse]
    rcases s.call function.text (values.map w.argument) function.kind with ⟨_ | value, t⟩ <;> rfl

mutual

theorem performs_instrs (e : Expr Symbol False) (s : w.State) :
    Performs e.instrs [] s (·.kind = e.kind) ([·]) (e.evaluate w w.emitted .ofSymbol) := by
  cases e with
  | int value | float value | name symbol =>
    refine .instr rfl ?_ rfl
    rintro _ _ ⟨⟩
    rfl
  | arith op left right =>
    exact performs_operator left.performs_instrs right.performs_instrs (performs_arith op left.kind)
  | compare op left right =>
    exact performs_operator left.performs_instrs right.performs_instrs (performs_compare op _)
  | call function arguments =>
    refine (performs_allInstrs arguments s).bind fun values t kinds => ?_
    exact performs_call function (by simpa using congrArg List.length kinds) t
  | neg allowed inner => exact allowed.elim

theorem performs_allInstrs (es : List (Expr Symbol False)) (s : w.State) :
    Performs (allInstrs es) [] s (·.map Entry.kind = es.map kind) List.reverse
      (evaluateAll w w.emitted .ofSymbol es) := by
  cases es with
  | nil => exact .done rfl rfl
  | cons e rest =>
    rw [allInstrs, evaluateAll]
    refine (e.performs_instrs s).bind fun first t kind => ?_
    have others := (performs_allInstrs rest t).above [first]
    rw [← List.append_nil (allInstrs rest)]
    refine others.bind fun values u kinds => ?_
    exact .done (by simp [kind, kinds]) List.reverse_cons.symm

end

/-- The code of an expression puts its value on any stack, in the kind of the expression and the code,
and passes through the reads and calls that give the value. Where the expression is undefined the code
ends, and the stack is still there. In a comparison of different kinds both values are used as
floats. -/
theorem code_computes (w : World) (e : Expr Symbol False) (s : w.State) :
    e.code.kind = e.kind ∧
    (match World.outcome (e.evaluate w w.emitted .ofSymbol) s with
      | (some value, t) => value.kind = e.kind ∧
        ∀ stack, run w e.code.instrs ⟨stack, s⟩ = (.next, ⟨value :: stack, t⟩)
      | (none, t) => ∃ above, ∀ stack,
        run w e.code.instrs ⟨stack, s⟩ = (.undefined, ⟨above ++ stack, t⟩)) ∧
    ∀ op left right x y t u, e = .compare op left right → left.kind ≠ right.kind →
      World.outcome (left.evaluate w w.emitted .ofSymbol) s = (some x, t) →
      World.outcome (right.evaluate w w.emitted .ofSymbol) t = (some y, u) →
      let value := .flag (w.comparison op (w.convert x .float) (w.convert y .float)) .float
      World.outcome (e.evaluate w w.emitted .ofSymbol) s = (some value, u) ∧
        ∀ stack, run w e.code.instrs ⟨stack, s⟩ = (.next, ⟨value :: stack, u⟩) := by
  have performs := performs_instrs (w := w) e s
  refine ⟨rfl, ?_, ?_⟩
  · split
    · rename_i value t computed
      exact performs.value value t computed
    · rename_i t failed
      exact performs.undefined t failed
  · rintro op left right x y t u rfl different first second value
    have joined := Kind.join_of_ne different
    have computed : World.outcome ((compare op left right).evaluate w w.emitted .ofSymbol) s =
        (some value, u) := by
      rw [evaluate, World.outcome_bind, first]
      dsimp only
      rw [World.outcome_bind, second, joined]
      rfl
    exact ⟨computed, (performs.value value u computed).2⟩

/-- In `x < 2.5` an integer is read and compared as a float. -/
theorem code_computes_mixed :
    let x : Symbol := .global "x" .integer
    let e : Expr Symbol False := .compare .less (.name x) (.float ⟨0x4004000000000000⟩)
    e.kind = .float ∧ ∀ (w : World) (s : w.State) (stack : List Entry),
      let n : Int32 := w.read s.store (.ofSymbol x) .integer
      run w e.code.instrs ⟨stack, s⟩ =
        (.next, ⟨.flag (w.comparison .less (.ofInt n.toInt) ⟨0x4004000000000000⟩) .float :: stack,
          s.log (.load (.ofSymbol x) ⟨.integer, n⟩)⟩) := by
  intro x e
  refine ⟨rfl, fun w s stack => ?_⟩
  exact ((code_computes w e s).2.2 _ _ _ _ _ _ _ rfl nofun rfl rfl).2 stack

end Ast.Expr

end Wabbit
