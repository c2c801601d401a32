import Wabbit.Proofs.Flow.Pieces

/-!
Functions inside of functions. They are all that the linker cannot handle in a program whose functions
return in the end.
-/

namespace Wabbit

open Stack

namespace Stack.Nested

variable {α : Type}

mutual

/-- The functions that a statement defines, also inside of others. -/
def functions : Nested α → List Ast.Symbol
  | leaf _ => []
  | ifElse _ ifTrue ifFalse => allFunctions ifTrue ++ allFunctions ifFalse
  | loop _ body => allFunctions body
  | function name _ body => name :: allFunctions body

def allFunctions : List (Nested α) → List Ast.Symbol
  | [] => []
  | s :: rest => s.functions ++ allFunctions rest

end

theorem allFunctions_append (front back : List (Nested α)) :
    allFunctions (front ++ back) = allFunctions front ++ allFunctions back := by
  induction front with
  | nil => rfl
  | cons s rest ih => simp [allFunctions, ih]

private theorem allFunctions_joinRun (instrs : Straight) (rest : List (Nested Straight)) :
    allFunctions (joinRun instrs rest) = allFunctions rest := by
  rcases joinRun_cases instrs rest with same | ⟨-, next, others, rfl, same⟩
  · rw [same]
    rfl
  · rw [same]
    rfl

theorem allFunctions_joinAllRuns (stmts : List (Nested Straight)) :
    allFunctions (joinAllRuns stmts) = allFunctions stmts := by
  induction stmts using inductionAll with
  | nil => rfl
  | leaf instrs rest ih =>
    rw [joinAllRuns, allFunctions_joinRun, ih]
    rfl
  | ifElse condition ifTrue ifFalse rest first second ih =>
    simp only [joinAllRuns, joinRuns, allFunctions, functions, first, second, ih]
  | loop condition body rest inner ih | function name parameters body rest inner ih =>
    simp only [joinAllRuns, joinRuns, allFunctions, functions, inner, ih]

theorem allFunctions_labelAll (stmts : List (Nested Straight)) (l : Labelling) :
    allFunctions ((labelAll stmts).run l).1 = allFunctions stmts := by
  induction stmts using inductionAll generalizing l with
  | nil => rfl
  | leaf instrs rest ih => exact ih _
  | ifElse condition ifTrue ifFalse rest first second ih =>
    have arms := congrArg₂ (· ++ ·) (first l) (second ((labelAll ifTrue).run l).2)
    exact congrArg₂ (· ++ ·) arms (ih _)
  | loop condition body rest inner ih => exact congrArg₂ (· ++ ·) (inner l) (ih _)
  | function name parameters body rest inner ih =>
    exact congrArg₂ (name :: · ++ ·) (inner l) (ih _)

end Stack.Nested

namespace Flow

open Nested (allFunctions)

/-- What has been laid out in blocks holds no function. -/
theorem LaidOut.allFunctions_eq_nil {next : Label} {stmts : List (Nested Block)} {linked : Linked}
    (laid : LaidOut next stmts linked) : allFunctions stmts = [] := by
  induction laid with
  | nil => rfl
  | pass label => rfl
  | leaf block others ih => exact ih
  | branch label others first second ih ih₁ ih₂ =>
    simp only [allFunctions, Nested.functions, ih, ih₁, ih₂, List.append_nil]
  | loop label others round ih ih₁ =>
    simp only [allFunctions, Nested.functions, ih, ih₁, List.append_nil]

/-- A step of the linker succeeds, or it fails because of one of the given functions. -/
def Ends {α : Type} (functions : List Ast.Symbol) (outcome : Except CompileError α) : Prop :=
  (∃ a, outcome = .ok a) ∨ ∃ name ∈ functions, outcome = .error (.innerFunction name.text)

namespace Ends

variable {α β : Type} {functions functions' : List Ast.Symbol}

theorem mono {outcome : Except CompileError α} (ends : Ends functions outcome)
    (more : functions ⊆ functions') : Ends functions' outcome :=
  ends.imp_right fun ⟨name, member, failed⟩ => ⟨name, more member, failed⟩

theorem bind {x : Link α} {f : α → Link β} {l : Labelling} (first : Ends functions (x.run l))
    (second : ∀ a m, x.run l = .ok (a, m) → Ends functions ((f a).run m)) :
    Ends functions ((x >>= f).run l) := by
  rw [StateT.run_bind]
  rcases first with ⟨⟨a, m⟩, done⟩ | ⟨name, member, failed⟩
  · rw [done]
    exact second a m done
  · rw [failed]
    exact .inr ⟨name, member, rfl⟩

end Ends

private theorem layAll_ends (next : Label) (stmts : List (Nested Block)) (l : Labelling) :
    Ends (allFunctions stmts) ((layAll next stmts).run l) := by
  have arm {stmts : List (Nested Block)} {functions : List Ast.Symbol}
      (inside : ∀ (next : Label) (l : Labelling),
        Ends (allFunctions stmts) ((layAll next stmts).run l))
      (more : allFunctions stmts ⊆ functions) (next : Label) (l : Labelling) :
      Ends functions ((layArm next stmts).run l) := by
    unfold layArm
    split
    · exact .inl ⟨_, rfl⟩
    · exact (inside next l).mono more
  induction stmts using Nested.inductionAll generalizing next l with
  | nil => exact .inl ⟨_, rfl⟩
  | leaf block stmts ih =>
    rw [layAll]
    refine (ih next l).bind fun rest m _ => ?_
    rw [layStmt]
    exact .inl ⟨_, rfl⟩
  | ifElse condition ifTrue ifFalse stmts ih₁ ih₂ ih =>
    rw [layAll]
    refine ((ih next l).mono (by simp [allFunctions])).bind fun rest m _ => ?_
    rw [layStmt_branch]
    simp only [bind_assoc]
    refine (arm ih₁ ?_ _ _).bind fun arm₁ m₁ _ => (arm ih₂ ?_ _ _).bind fun arm₂ m₂ _ => ?_
    · intro name
      simp +contextual [allFunctions, Nested.functions]
    · intro name
      simp +contextual [allFunctions, Nested.functions]
    · exact .inl ⟨_, rfl⟩
  | loop condition body stmts ih₁ ih =>
    rw [layAll]
    refine ((ih next l).mono (by simp [allFunctions])).bind fun rest m _ => ?_
    rw [layStmt_loop]
    simp only [bind_assoc]
    refine .bind (.inl ⟨_, rfl⟩) fun label m₁ _ => (arm ih₁ ?_ _ _).bind fun inner m₂ _ => ?_
    · simp [allFunctions, Nested.functions]
    · exact .inl ⟨_, rfl⟩
  | function name parameters body stmts _ ih =>
    rw [layAll]
    refine ((ih next l).mono (by simp [allFunctions])).bind fun rest m _ => ?_
    rw [layStmt]
    exact .inr ⟨name, by simp [allFunctions, Nested.functions], rfl⟩

theorem linkFunction_ends {f : FunDef (Nested Block)}
    (closed : Nested.isClosed Block.instrs f.body = true) (l : Labelling) :
    Ends (allFunctions f.body) ((linkFunction f).run l) := by
  obtain ⟨before, last, split⟩ := splitLast?_of_isClosed closed
  obtain ⟨parts, -⟩ := splitLast?_inv split
  have front : Ends (allFunctions f.body) ((layAll last.label before).run l) :=
    (layAll_ends last.label before l).mono (by simp [parts, Nested.allFunctions_append])
  rw [linkFunction_eq split]
  exact front.bind fun linked m _ => .inl ⟨_, rfl⟩

end Flow

namespace Items

variable {α : Type}

/-- The functions inside of the functions of a program. -/
def innerFunctions (program : Items (Nested α)) : List Ast.Symbol :=
  program.functions.flatMap fun f => Nested.allFunctions f.body

theorem innerFunctions_groupBlocks (program : Items (Nested Straight)) (l : Labelling) :
    (program.groupBlocks.run l).1.innerFunctions = program.innerFunctions := by
  refine ((related_groupBlocks program l).flatMap_functions _ _ ?_).symm
  rintro f g ⟨m, rfl⟩
  rw [FunDef.withBody, Nested.allFunctions_labelAll, Nested.allFunctions_joinAllRuns]

/-- A program whose functions return in the end fails to link only because of a function inside of
another one. -/
theorem link_ends {program : Items (Nested Block)}
    (closed : ∀ f ∈ program.functions, Nested.isClosed Block.instrs f.body = true) (l : Labelling) :
    Flow.Ends program.innerFunctions (program.link.run l) := by
  induction program generalizing l with
  | nil => exact .inl ⟨_, rfl⟩
  | cons item rest ih =>
    cases item with
    | global symbol => exact (ih closed l).bind fun others m _ => .inl ⟨_, rfl⟩
    | function f =>
      obtain ⟨own, others⟩ := List.forall_mem_cons.mp closed
      refine .bind ((Flow.linkFunction_ends own l).mono (List.subset_append_left ..)) fun g m _ => ?_
      refine .bind ((ih others m).mono (List.subset_append_right ..)) fun linked m' _ => ?_
      exact .inl ⟨_, rfl⟩

theorem innerFunctions_of_link {program : Items (Nested Block)} {linked : Items Block}
    {l l' : Labelling} (done : program.link.run l = .ok (linked, l')) :
    program.innerFunctions = [] := by
  rw [innerFunctions, (related_mapFunctionsM done).flatMap_functions _ fun _ => []]
  · simp
  · rintro f g ⟨m, m', own⟩
    obtain ⟨-, linked, laid, -⟩ := Flow.linkFunction_laidOut own ⟨0⟩
    exact laid.allFunctions_eq_nil

end Items

end Wabbit
