import Wabbit.Compiler
import Wabbit.Proofs.Success

/-!
What a successful run of the compiler has gone through.
-/

namespace Wabbit

open Ast

namespace Build

variable {α : Type} {a : α}

private theorem result_checked_eq_ok {result : Except Mismatch α} :
    (checked result).result = .ok a ↔ result = .ok a := Success.mapError_eq_ok

private theorem result_guarded_eq_ok {labels : Labels} {result : Except CompileError α} :
    (guarded labels result).result = .ok a ↔ result = .ok a := Success.mapError_eq_ok

private theorem result_finish_eq_ok {stage : Stage} {labels : Labels} {program : Program} {u : Unit} :
    (finish stage labels program).result = .ok u ↔ True := by
  simp [finish, Logged.write]

/-- Names are resolved in the same way with warnings and without them. -/
theorem result_resolveNames_eq_ok {options : Options} {script : Split} {resolved : Resolved}
    {entry : Warning → Event} {failure : Mismatch → Failure} :
    ((resolveNames options script).adapt entry failure).result = .ok resolved ↔
      script.resolve.result = .ok resolved := by
  have same : (resolveNames options script).result = script.resolve.result := by
    unfold resolveNames
    split <;> rfl
  rw [← same]
  exact Success.mapError_eq_ok

end Build

/-- All steps of a successful run have succeeded, each on what the one before it has made. -/
theorem compile_inv {options : Options} {script : Parsed} {compiled : Compiled}
    (done : (compile options script).result = .ok compiled) :
    ∃ folded resolved plain straight linked labelling generated, script.fold = .ok folded ∧
      folded.split.resolve.result = .ok resolved ∧
      (Items.ofScript resolved).ensureReturns.eliminateNegation = .ok plain ∧
      plain.lowerExpressions.lowerStatements = .ok straight ∧
      (straight.groupBlocks.run {}).1.link.run (straight.groupBlocks.run {}).2 =
        .ok (linked, labelling) ∧
      linked.generate = .ok generated ∧
      (compiled.program, compiled.labels) =
        generated.withEntryBlocks.run (linked.relabel labelling.labels) := by
  simp only [compile, Success.result_bind_eq_ok, Build.result_checked_eq_ok,
    Build.result_guarded_eq_ok, Build.result_finish_eq_ok, Build.result_resolveNames_eq_ok, true_and,
    exists_const] at done
  obtain ⟨folded, fold, resolved, resolve, plain, subtract, straight, straighten, done⟩ := done
  -- Pairs that come out of a state have to be opened before the next steps can be.
  rcases grouping : straight.groupBlocks.run {} with ⟨grouped, l⟩
  simp only [grouping, Success.result_bind_eq_ok, Build.result_guarded_eq_ok,
    Build.result_finish_eq_ok, Prod.exists, true_and, exists_const] at done
  obtain ⟨linked, labelling, link, generated, generate, last⟩ := done
  refine ⟨folded, resolved, plain, straight, linked, labelling, generated, fold, resolve, subtract,
    straighten, ?_, generate, ?_⟩
  · rw [grouping]
    exact link
  · cases last
    rfl

end Wabbit
