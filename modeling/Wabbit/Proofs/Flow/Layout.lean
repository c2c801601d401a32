import Wabbit.Proofs.Success
import Wabbit.Proofs.Flow.Order
import Wabbit.Proofs.Flow.Structured

/-!
What the linker makes of nested statements, apart from the labels it chooses. It makes something of
all proper statements.
-/

namespace Wabbit

open Stack

namespace Flow

/-- How statements in front of a label are laid out in blocks. No statements may also become a block
that only jumps on. -/
inductive LaidOut : Label → List (Nested Block) → Linked → Prop where
  | nil {next} : LaidOut next [] ⟨[], next⟩
  | pass {next} (label : Label) : LaidOut next [] ⟨[⟨label, [.goto next]⟩], label⟩
  | leaf {next stmts rest} (block : Block) (others : LaidOut next stmts rest) :
      LaidOut next (.leaf block :: stmts)
        ⟨closeBlock block rest.entry :: rest.blocks, block.label⟩
  | branch {next stmts rest condition ifTrue ifFalse arm₁ arm₂} (label : Label)
      (others : LaidOut next stmts rest) (first : LaidOut rest.entry ifTrue arm₁)
      (second : LaidOut rest.entry ifFalse arm₂) :
      LaidOut next (.ifElse condition ifTrue ifFalse :: stmts)
        ⟨test label condition arm₁.entry arm₂.entry :: (arm₁.blocks ++ arm₂.blocks) ++ rest.blocks,
          label⟩
  | loop {next stmts rest condition body inner} (label : Label)
      (others : LaidOut next stmts rest) (round : LaidOut label body inner) :
      LaidOut next (.loop condition body :: stmts)
        ⟨test label condition inner.entry rest.entry :: inner.blocks ++ rest.blocks, label⟩

section Inversion

variable {next : Label} {stmts : List (Nested Block)} {l l' : Labelling} {out : Linked}

theorem layAll_leaf {block : Block}
    (done : (layAll next (.leaf block :: stmts)).run l = .ok (out, l')) :
    ∃ rest, (layAll next stmts).run l = .ok (rest, l') ∧
      out = ⟨closeBlock block rest.entry :: rest.blocks, block.label⟩ := by
  rw [layAll] at done
  obtain ⟨rest, m, recursive, done⟩ := Success.run_bind_eq_ok.mp done
  obtain ⟨own, m', linked, done⟩ := Success.run_bind_eq_ok.mp done
  obtain ⟨rfl, rfl⟩ := Success.run_pure_eq_ok.mp done
  rw [layStmt] at linked
  obtain ⟨rfl, rfl⟩ := Success.run_pure_eq_ok.mp linked
  exact ⟨rest, recursive, rfl⟩

theorem layAll_branch {condition : Code} {ifTrue ifFalse : List (Nested Block)}
    (done : (layAll next (.ifElse condition ifTrue ifFalse :: stmts)).run l = .ok (out, l')) :
    ∃ rest arm₁ arm₂ m m₁ m₂, (layAll next stmts).run l = .ok (rest, m) ∧
      (layArm rest.entry ifTrue).run m = .ok (arm₁, m₁) ∧
      (layArm rest.entry ifFalse).run m₁ = .ok (arm₂, m₂) ∧ l' = m₂.fresh.2 ∧
      out = ⟨test m₂.fresh.1 condition arm₁.entry arm₂.entry ::
        (arm₁.blocks ++ arm₂.blocks) ++ rest.blocks, m₂.fresh.1⟩ := by
  rw [layAll] at done
  obtain ⟨rest, m, recursive, done⟩ := Success.run_bind_eq_ok.mp done
  obtain ⟨own, m', linked, done⟩ := Success.run_bind_eq_ok.mp done
  obtain ⟨rfl, rfl⟩ := Success.run_pure_eq_ok.mp done
  rw [layStmt_branch] at linked
  obtain ⟨arm₁, m₁, first, linked⟩ := Success.run_bind_eq_ok.mp linked
  obtain ⟨arm₂, m₂, second, linked⟩ := Success.run_bind_eq_ok.mp linked
  obtain ⟨label, m₃, made, linked⟩ := Success.run_bind_eq_ok.mp linked
  obtain ⟨rfl, rfl⟩ := Success.run_pure_eq_ok.mp linked
  cases made
  exact ⟨rest, arm₁, arm₂, m, m₁, m₂, recursive, first, second, rfl, rfl⟩

theorem layAll_loop {condition : Code} {body : List (Nested Block)}
    (done : (layAll next (.loop condition body :: stmts)).run l = .ok (out, l')) :
    ∃ rest inner m, (layAll next stmts).run l = .ok (rest, m) ∧
      (layArm m.fresh.1 body).run m.fresh.2 = .ok (inner, l') ∧
      out = ⟨test m.fresh.1 condition inner.entry rest.entry :: inner.blocks ++ rest.blocks,
        m.fresh.1⟩ := by
  rw [layAll] at done
  obtain ⟨rest, m, recursive, done⟩ := Success.run_bind_eq_ok.mp done
  obtain ⟨own, m', linked, done⟩ := Success.run_bind_eq_ok.mp done
  obtain ⟨rfl, rfl⟩ := Success.run_pure_eq_ok.mp done
  rw [layStmt_loop] at linked
  obtain ⟨label, m₁, made, linked⟩ := Success.run_bind_eq_ok.mp linked
  obtain ⟨inner, m₂, round, linked⟩ := Success.run_bind_eq_ok.mp linked
  obtain ⟨rfl, rfl⟩ := Success.run_pure_eq_ok.mp linked
  cases made
  exact ⟨rest, inner, m, recursive, round, rfl⟩

theorem layAll_function {name : Ast.Symbol} {parameters : List Ast.Symbol}
    {body : List (Nested Block)} :
    (layAll next (.function name parameters body :: stmts)).run l ≠ .ok (out, l') := by
  intro done
  rw [layAll] at done
  obtain ⟨rest, m, recursive, done⟩ := Success.run_bind_eq_ok.mp done
  obtain ⟨own, m', linked, done⟩ := Success.run_bind_eq_ok.mp done
  rw [layStmt] at linked
  cases linked

theorem layArm_cases (done : (layArm next stmts).run l = .ok (out, l')) :
    (stmts = [] ∧ l' = l.fresh.2 ∧ out = ⟨[⟨l.fresh.1, [.goto next]⟩], l.fresh.1⟩) ∨
      (layAll next stmts).run l = .ok (out, l') := by
  unfold layArm at done
  split at done
  · rename_i empty
    cases done
    exact .inl ⟨List.isEmpty_iff.mp empty, rfl, rfl⟩
  · exact .inr done

end Inversion

theorem laidOut_of_layAll {next : Label} {stmts : List (Nested Block)} {l l' : Labelling}
    {out : Linked} (done : (layAll next stmts).run l = .ok (out, l')) :
    LaidOut next stmts out := by
  -- An arm is laid out as its statements are, or it is the block that only jumps on.
  have arm {next : Label} {stmts : List (Nested Block)} {l l' : Labelling} {out : Linked}
      (inside : ∀ {l l' : Labelling} {out : Linked},
        (layAll next stmts).run l = .ok (out, l') → LaidOut next stmts out)
      (done : (layArm next stmts).run l = .ok (out, l')) : LaidOut next stmts out := by
    rcases layArm_cases done with ⟨rfl, -, rfl⟩ | done
    · exact .pass _
    · exact inside done
  induction stmts using Nested.inductionAll generalizing next l l' out with
  | nil =>
    cases done
    exact .nil
  | leaf block stmts ih =>
    obtain ⟨rest, others, rfl⟩ := layAll_leaf done
    exact .leaf block (ih others)
  | ifElse condition ifTrue ifFalse stmts ih₁ ih₂ ih =>
    obtain ⟨rest, arm₁, arm₂, m, m₁, m₂, others, first, second, -, rfl⟩ := layAll_branch done
    exact .branch _ (ih others) (arm ih₁ first) (arm ih₂ second)
  | loop condition body stmts ih₁ ih =>
    obtain ⟨rest, inner, m, others, round, rfl⟩ := layAll_loop done
    exact .loop _ (ih others) (arm ih₁ round)
  | function name parameters body stmts _ _ => exact absurd done layAll_function

/-- Proper statements are linked in front of every label. -/
theorem layAll_succeeds {proper : Block → Bool} {stmts : List (Nested Block)}
    (all : Nested.allProper proper stmts = true) (next : Label) (l : Labelling) :
    ∃ out l', (layAll next stmts).run l = .ok (out, l') := by
  have arm {stmts : List (Nested Block)}
      (inside : ∀ (next : Label) (l : Labelling),
        ∃ out l', (layAll next stmts).run l = .ok (out, l'))
      (next : Label) (l : Labelling) : ∃ out l', (layArm next stmts).run l = .ok (out, l') := by
    unfold layArm
    split
    · exact ⟨_, _, rfl⟩
    · exact inside next l
  induction stmts using Nested.inductionAll generalizing next l with
  | nil => exact ⟨_, _, rfl⟩
  | leaf block stmts ih =>
    simp only [Nested.allProper, Nested.isProper, Bool.and_eq_true] at all
    obtain ⟨rest, m, others⟩ := ih all.2 next l
    rw [layAll]
    refine Success.run_bind others ?_
    rw [layStmt]
    exact ⟨_, _, rfl⟩
  | ifElse condition ifTrue ifFalse stmts ih₁ ih₂ ih =>
    simp only [Nested.allProper, Nested.isProper, Bool.and_eq_true] at all
    obtain ⟨rest, m, others⟩ := ih all.2 next l
    obtain ⟨arm₁, m₁, first⟩ := arm (ih₁ all.1.1.2) rest.entry m
    obtain ⟨arm₂, m₂, second⟩ := arm (ih₂ all.1.2) rest.entry m₁
    rw [layAll]
    refine Success.run_bind others ?_
    rw [layStmt_branch]
    simp only [bind_assoc]
    exact Success.run_bind first (Success.run_bind second ⟨_, _, rfl⟩)
  | loop condition body stmts ih₁ ih =>
    simp only [Nested.allProper, Nested.isProper, Bool.and_eq_true] at all
    obtain ⟨rest, m, others⟩ := ih all.2 next l
    obtain ⟨inner, m', round⟩ := arm (ih₁ all.1.2) m.fresh.1 m.fresh.2
    rw [layAll]
    refine Success.run_bind others ?_
    rw [layStmt_loop]
    simp only [bind_assoc]
    exact Success.run_bind rfl (Success.run_bind round ⟨_, _, rfl⟩)
  | function name parameters body stmts _ _ => simp [Nested.allProper, Nested.isProper] at all

/-- A final block that does not run on is linked like any other leaf, in front of any label. -/
theorem layAll_append_last (next : Label) (before : List (Nested Block)) {last : Block}
    (closed : isTerminated last.instrs = true) :
    layAll next (before ++ [.leaf last]) =
      (fun linked => ⟨linked.blocks ++ [last], linked.entry⟩) <$> layAll last.label before := by
  induction before with
  | nil => simp [layAll, layStmt, closeBlock, closed]
  | cons s rest ih => simp [layAll, ih]

theorem splitLast?_inv {body before : List (Nested Block)} {last : Block}
    (split : splitLast? body = some (before, last)) :
    body = before ++ [.leaf last] ∧ isTerminated last.instrs = true := by
  unfold splitLast? at split
  split at split
  · rename_i block final
    split at split
    · rename_i closed
      cases split
      obtain ⟨front, rfl⟩ := List.getLast?_eq_some_iff.mp final
      exact ⟨by simp, closed⟩
    · cases split
  · cases split

theorem splitLast?_of_isClosed {body : List (Nested Block)}
    (closed : Nested.isClosed Block.instrs body = true) :
    ∃ before last, splitLast? body = some (before, last) := by
  unfold Nested.isClosed at closed
  unfold splitLast?
  split at closed
  · simp_all
  · cases closed

/-- All that linking a function can do. -/
theorem linkFunction_inv {f : FunDef (Nested Block)} {g : FunDef Block} {l l' : Labelling}
    (done : (linkFunction f).run l = .ok (g, l')) :
    ∃ before last linked, f.body = before ++ [.leaf last] ∧ isTerminated last.instrs = true ∧
      (layAll last.label before).run l = .ok (linked, l') ∧
      g = f.withBody (linked.blocks ++ [last]) := by
  cases split : splitLast? f.body with
  | none =>
    rw [linkFunction, split] at done
    cases done
  | some parts =>
    obtain ⟨before, last⟩ := parts
    rw [linkFunction_eq split] at done
    obtain ⟨linked, m, others, done⟩ := Success.run_bind_eq_ok.mp done
    obtain ⟨rfl, rfl⟩ := Success.run_pure_eq_ok.mp done
    obtain ⟨parts, closed⟩ := splitLast?_inv split
    exact ⟨before, last, linked, parts, closed, others, rfl⟩

/-- The final block of a function is linked like any other leaf, whatever may follow it. -/
theorem linkFunction_layAll {f : FunDef (Nested Block)} {g : FunDef Block} {l l' : Labelling}
    (done : (linkFunction f).run l = .ok (g, l')) (next : Label) :
    Nested.isClosed Block.instrs f.body = true ∧
      ∃ linked, (layAll next f.body).run l = .ok (linked, l') ∧ g = f.withBody linked.blocks := by
  obtain ⟨before, last, linked, parts, closed, others, rfl⟩ := linkFunction_inv done
  have whole : (layAll next (before ++ [.leaf last])).run l =
      .ok (⟨linked.blocks ++ [last], linked.entry⟩, l') := by
    rw [layAll_append_last next before closed, StateT.run_map, others]
    rfl
  rw [parts]
  exact ⟨by simpa [Nested.isClosed] using closed, _, whole, rfl⟩

theorem linkFunction_laidOut {f : FunDef (Nested Block)} {g : FunDef Block} {l l' : Labelling}
    (done : (linkFunction f).run l = .ok (g, l')) (next : Label) :
    Nested.isClosed Block.instrs f.body = true ∧
      ∃ linked, LaidOut next f.body linked ∧ g = f.withBody linked.blocks := by
  obtain ⟨closed, linked, whole, rfl⟩ := linkFunction_layAll done next
  exact ⟨closed, linked, laidOut_of_layAll whole, rfl⟩

/-- A proper function that returns in the end can be linked. -/
theorem linkFunction_succeeds {proper : Block → Bool} {f : FunDef (Nested Block)}
    (all : Nested.allProper proper f.body = true)
    (closed : Nested.isClosed Block.instrs f.body = true) (l : Labelling) :
    ∃ g l', (linkFunction f).run l = .ok (g, l') := by
  obtain ⟨before, last, split⟩ := splitLast?_of_isClosed closed
  obtain ⟨parts, -⟩ := splitLast?_inv split
  rw [parts, Nested.allProper_append, Bool.and_eq_true] at all
  obtain ⟨linked, l', done⟩ := layAll_succeeds all.1 last.label l
  rw [linkFunction_eq split]
  exact Success.run_bind done ⟨_, _, rfl⟩

end Flow

end Wabbit
