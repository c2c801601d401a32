import Wabbit.Proofs.Flow.Linking
import Wabbit.Proofs.Outline.Functions

/-!
Where statements lead. Control comes to what follows some statements exactly if the last of them may
come to its end, and it comes back to their entry exactly if the first of them is a loop that goes
round.
-/

namespace Wabbit

open Ast Stack

namespace Outline

mutual

/-- Whether control may come to the end of a statement. -/
def leadsOn : Outline → Bool
  | leaf _ returns => !returns
  | branch _ ifTrue ifFalse => allLeadOn ifTrue || allLeadOn ifFalse
  | loop _ _ => true
  | function _ => true

/-- Whether control may come to the end of several statements: what stands behind a return counts as
well. -/
def allLeadOn : List Outline → Bool
  | [] => true
  | s :: rest => if rest.isEmpty then s.leadsOn else allLeadOn rest

end

/-- Whether a statement is a loop, the round of which may come to its end. -/
def loopsBack : Outline → Bool
  | loop _ body => allLeadOn body
  | _ => false

end Outline

namespace Flow

/-- Whether control may come from some blocks to a label. -/
def Linked.Reaches (out : Linked) (label : Label) : Prop :=
  out.entry = label ∨ ∃ block ∈ out.blocks, label ∈ block.targets

section Linking

variable {next : Label} {stmts : List (Nested Block)} {l l' : Labelling} {out : Linked}

/-- Control stays inside of some blocks until it comes to what follows them. -/
theorem LaidOut.not_reaches (laid : LaidOut next stmts out) (straight : AllStraight stmts)
    {label : Label} (other : label ≠ next) (apart : label ∉ out.blocks.map Block.label) :
    ¬ out.Reaches label := by
  have unknown : label ∉ next :: out.blocks.map Block.label := by simp [other, apart]
  obtain ⟨entry, leads⟩ := laid.leads straight List.mem_cons_self fun block inside =>
    List.mem_cons_of_mem _ (List.mem_map_of_mem inside)
  rintro (rfl | ⟨block, inside, target⟩)
  · exact unknown entry
  · exact unknown (leads block inside target)

theorem layArm_laidOut (done : (layArm next stmts).run l = .ok (out, l')) :
    LaidOut next stmts out := by
  rcases layArm_cases done with ⟨rfl, -, rfl⟩ | done
  · exact .pass _
  · exact laidOut_of_layAll done

theorem mem_targets_closeBlock {block : Block} (straight : isStraight block.instrs = true)
    {label : Label} :
    label ∈ (closeBlock block next).targets ↔ next = label ∧ isTerminated block.instrs = false := by
  unfold closeBlock
  split <;> simp [Block.targets, targets_straight straight, Instr.targets, eq_comm, *]

theorem exists_mem_append {α : Type} {holds : α → Prop} {front back : List α} :
    (∃ x ∈ front ++ back, holds x) ↔ (∃ x ∈ front, holds x) ∨ ∃ x ∈ back, holds x := by
  simp only [List.mem_append, or_and_right, exists_or]

theorem leads_branch {condition : Code} {arm₁ arm₂ : Linked} {label target : Label}
    (plain : condition.isPlain = true) :
    (∃ block ∈ test label condition arm₁.entry arm₂.entry :: (arm₁.blocks ++ arm₂.blocks),
      target ∈ block.targets) ↔ arm₁.Reaches target ∨ arm₂.Reaches target := by
  simp only [Linked.Reaches, List.mem_cons, List.mem_append, or_and_right, exists_or,
    exists_eq_left, targets_test plain, List.not_mem_nil, or_false, eq_comm]
  exact or_or_or_comm

theorem leads_loop {condition : Code} {inner : Linked} {label target : Label}
    (plain : condition.isPlain = true) :
    (∃ block ∈ test label condition inner.entry next :: inner.blocks, target ∈ block.targets) ↔
      inner.Reaches target ∨ next = target := by
  simp only [Linked.Reaches, List.mem_cons, or_and_right, exists_or, exists_eq_left,
    targets_test plain, List.not_mem_nil, or_false, eq_comm]
  exact or_right_comm

open Outline

/-- Control comes from a statement and others to what follows them if it comes there from the others,
or if there are none and the statement leads on. -/
theorem reaches_cons {s : Nested Block} {rest : Linked} (own : List Block) {entry : Label}
    (others : (layAll next stmts).run l = .ok (rest, l'))
    (behind : rest.Reaches next ↔ allLeadOn (Nested.outlineAll Block.instrs stmts) = true)
    (apart : next ∉ rest.blocks.map Block.label) (different : entry ≠ next)
    (leads : (∃ block ∈ own, next ∈ block.targets) ↔
      rest.entry = next ∧ (s.outline Block.instrs).leadsOn = true) :
    (⟨own ++ rest.blocks, entry⟩ : Linked).Reaches next ↔
      allLeadOn (Nested.outlineAll Block.instrs (s :: stmts)) = true := by
  have parts : (⟨own ++ rest.blocks, entry⟩ : Linked).Reaches next ↔
      (rest.entry = next ∧ (s.outline Block.instrs).leadsOn = true) ∨
        ∃ block ∈ rest.blocks, next ∈ block.targets := by
    simp only [Linked.Reaches, different, false_or, List.mem_append, or_and_right, exists_or, leads]
  rw [parts]
  cases stmts with
  | nil =>
    cases others
    simp [Nested.outlineAll, allLeadOn]
  | cons t stmts =>
    obtain ⟨first, more, blocks, label⟩ := (laidOut_of_layAll others).head_label (List.cons_ne_nil _ _)
    have elsewhere : rest.entry ≠ next := by
      rintro rfl
      simp [blocks, label] at apart
    have later : allLeadOn (Nested.outlineAll Block.instrs (s :: t :: stmts)) =
        allLeadOn (Nested.outlineAll Block.instrs (t :: stmts)) := by
      simp [Nested.outlineAll, allLeadOn]
    rw [later, ← behind]
    simp [Linked.Reaches, elsewhere]

/-- The arm of a branch or the body of a loop leads on if its statements do. -/
theorem layArm_reaches_iff {middle : Label}
    (inside : ∀ {l l' : Labelling} {out : Linked}, (layAll middle stmts).run l = .ok (out, l') →
      AllStraight stmts → middle ∉ out.blocks.map Block.label →
      (out.Reaches middle ↔ allLeadOn (Nested.outlineAll Block.instrs stmts) = true))
    (done : (layArm middle stmts).run l = .ok (out, l')) (straight : AllStraight stmts)
    (apart : next ∉ out.blocks.map Block.label) :
    out.Reaches next ↔ middle = next ∧ allLeadOn (Nested.outlineAll Block.instrs stmts) = true := by
  by_cases same : middle = next
  · subst same
    rcases layArm_cases done with ⟨rfl, -, rfl⟩ | done
    · simp [Linked.Reaches, Block.targets, Instr.targets, Nested.outlineAll, allLeadOn]
    · simp [inside done straight apart]
  · simp [(layArm_laidOut done).not_reaches straight (Ne.symm same) apart, same]

/-- Control comes to what follows some statements exactly if one of them leads there. -/
theorem layAll_reaches_iff (done : (layAll next stmts).run l = .ok (out, l'))
    (straight : AllStraight stmts) (apart : next ∉ out.blocks.map Block.label) :
    out.Reaches next ↔ allLeadOn (Nested.outlineAll Block.instrs stmts) = true := by
  induction stmts using Nested.inductionAll generalizing next l l' out with
  | nil =>
    cases done
    simp [Linked.Reaches, Nested.outlineAll, allLeadOn]
  | leaf block stmts ih =>
    obtain ⟨plain, straight⟩ := allStraight_leaf straight
    obtain ⟨rest, others, rfl⟩ := layAll_leaf done
    simp only [List.map_cons, label_closeBlock, List.mem_cons, not_or] at apart
    refine reaches_cons [_] others (ih others straight apart.2) apart.2 (Ne.symm apart.1) ?_
    simp [mem_targets_closeBlock plain, Nested.outline, leadsOn]
  | ifElse condition ifTrue ifFalse stmts ih₁ ih₂ ih =>
    obtain ⟨plain, straight₁, straight₂, straight⟩ := allStraight_branch straight
    obtain ⟨rest, arm₁, arm₂, m, m₁, m₂, others, first, second, -, rfl⟩ := layAll_branch done
    simp only [List.cons_append, List.map_cons, List.map_append, List.mem_cons, List.mem_append,
      not_or] at apart
    obtain ⟨different, ⟨apart₁, apart₂⟩, apart⟩ := apart
    refine reaches_cons _ others (ih others straight apart) apart (Ne.symm different) ?_
    rw [leads_branch plain, layArm_reaches_iff ih₁ first straight₁ apart₁,
      layArm_reaches_iff ih₂ second straight₂ apart₂, ← and_or_left]
    simp [Nested.outline, leadsOn]
  | loop condition body stmts ih₁ ih =>
    obtain ⟨plain, straight₁, straight⟩ := allStraight_loop straight
    obtain ⟨rest, inner, m, others, round, rfl⟩ := layAll_loop done
    simp only [List.cons_append, List.map_cons, List.map_append, List.mem_cons, List.mem_append,
      not_or] at apart
    obtain ⟨different, apart₁, apart⟩ := apart
    refine reaches_cons _ others (ih others straight apart) apart (Ne.symm different) ?_
    rw [leads_loop plain]
    simp [(layArm_laidOut round).not_reaches straight₁ different apart₁, Nested.outline, leadsOn]
  | function name parameters body stmts _ _ => exact absurd done layAll_function

/-- Control comes back to the entry of some statements exactly if the first one is a loop that goes
round. -/
theorem layAll_returns_iff (done : (layAll next stmts).run l = .ok (out, l'))
    (straight : AllStraight stmts) (some : stmts ≠ [])
    (distinct : (next :: out.blocks.map Block.label).Nodup) :
    (∃ block ∈ out.blocks, out.entry ∈ block.targets) ↔
      (Nested.outlineAll Block.instrs stmts).head?.any loopsBack = true := by
  cases stmts with
  | nil => exact absurd rfl some
  | cons s stmts =>
    cases s with
    | leaf block =>
      obtain ⟨plain, straight⟩ := allStraight_leaf straight
      obtain ⟨rest, others, rfl⟩ := layAll_leaf done
      simp only [List.map_cons, label_closeBlock, List.nodup_cons, List.mem_cons, not_or] at distinct
      have away := (laidOut_of_layAll others).not_reaches straight (Ne.symm distinct.1.1) distinct.2.1
      simp only [Linked.Reaches, not_or] at away
      simp [mem_targets_closeBlock plain, away, Nested.outlineAll, Nested.outline, loopsBack]
    | ifElse condition ifTrue ifFalse =>
      obtain ⟨plain, straight₁, straight₂, straight⟩ := allStraight_branch straight
      obtain ⟨rest, arm₁, arm₂, m, m₁, m₂, others, first, second, -, rfl⟩ := layAll_branch done
      generalize m₂.fresh.1 = label at distinct ⊢
      simp only [test, List.cons_append, List.map_cons, List.map_append, List.nodup_cons,
        List.mem_cons, List.mem_append, not_or] at distinct
      obtain ⟨⟨outside, -⟩, ⟨⟨apart₁, apart₂⟩, apart⟩, -⟩ := distinct
      have away := (laidOut_of_layAll others).not_reaches straight (Ne.symm outside) apart
      simp only [Linked.Reaches, not_or] at away
      have away₁ := (layArm_laidOut first).not_reaches straight₁ (Ne.symm away.1) apart₁
      have away₂ := (layArm_laidOut second).not_reaches straight₂ (Ne.symm away.1) apart₂
      rw [exists_mem_append, leads_branch plain]
      simp [away₁, away₂, away.2, Nested.outlineAll, Nested.outline, loopsBack]
    | loop condition body =>
      obtain ⟨plain, straight₁, straight⟩ := allStraight_loop straight
      obtain ⟨rest, inner, m, others, round, rfl⟩ := layAll_loop done
      generalize m.fresh.1 = label at round distinct ⊢
      simp only [test, List.cons_append, List.map_cons, List.map_append, List.nodup_cons,
        List.mem_cons, List.mem_append, not_or] at distinct
      obtain ⟨⟨outside, -⟩, ⟨apart₁, apart⟩, -⟩ := distinct
      have away := (laidOut_of_layAll others).not_reaches straight (Ne.symm outside) apart
      simp only [Linked.Reaches, not_or] at away
      have again := layArm_reaches_iff layAll_reaches_iff round straight₁ apart₁
      rw [exists_mem_append, leads_loop plain, again]
      simp [away, Nested.outlineAll, Nested.outline, loopsBack]
    | function name parameters body => exact absurd done layAll_function

end Linking

/-- Control comes back to the first block of a function exactly if its first statement is a loop that
goes round. -/
theorem linkFunction_returns_iff {f : FunDef (Nested Block)} {g : FunDef Block} {l l' : Labelling}
    (done : (linkFunction f).run l = .ok (g, l')) (straight : AllStraight f.body)
    (distinct : (g.body.map Block.label).Nodup) :
    ∃ first rest, g.body = first :: rest ∧ ((∃ block ∈ g.body, first.label ∈ block.targets) ↔
      (Nested.outlineAll Block.instrs f.body).head?.any Outline.loopsBack = true) := by
  -- Nothing leads behind the final block, so a label that no block has may stand for what follows.
  obtain ⟨next, apart⟩ := Label.exists_unused (g.body.map Block.label)
  obtain ⟨closed, linked, whole, rfl⟩ := linkFunction_layAll done next
  have some : f.body ≠ [] := by
    rintro none
    simp [none, Nested.isClosed] at closed
  obtain ⟨first, rest, blocks, entry⟩ := (laidOut_of_layAll whole).head_label some
  refine ⟨first, rest, blocks, ?_⟩
  rw [entry]
  exact layAll_returns_iff whole straight some (List.nodup_cons.mpr ⟨apart, distinct⟩)

end Flow

/-! ### Joining -/

namespace Outline

theorem allLeadOn_cons {s t : Outline} {rest rest' : List Outline} (own : s.leadsOn = t.leadsOn)
    (empty : rest.isEmpty = rest'.isEmpty) (others : allLeadOn rest = allLeadOn rest') :
    allLeadOn (s :: rest) = allLeadOn (t :: rest') := by
  simp only [allLeadOn, own, empty, others]

end Outline

namespace Stack

open Outline

private theorem isEmpty_outlineAll {α : Type} (code : α → List Instr) (stmts : List (Nested α)) :
    (Nested.outlineAll code stmts).isEmpty = stmts.isEmpty := by
  cases stmts <;> rfl

private theorem allLeadOn_joinRun (instrs : Straight) (rest : List (Nested Straight)) :
    allLeadOn (Nested.outlineAll id (joinRun instrs rest)) =
      allLeadOn (Nested.outlineAll id (.leaf instrs :: rest)) := by
  rcases joinRun_cases instrs rest with same | ⟨running, next, others, rfl, same⟩
  · rw [same]
  · have last := isTerminated_append running next
    simp [same, Nested.outlineAll, Nested.outline, allLeadOn, leadsOn, last]

private theorem isEmpty_joinAllRuns (stmts : List (Nested Straight)) :
    (Nested.joinAllRuns stmts).isEmpty = stmts.isEmpty := by
  cases stmts with
  | nil => rfl
  | cons s rest =>
    cases s with
    | leaf instrs =>
      obtain ⟨run, others, same⟩ := exists_joinRun instrs (Nested.joinAllRuns rest)
      rw [Nested.joinAllRuns, same]
      rfl
    | _ => rfl

/-- Joining statements into runs does not change whether they lead on. -/
theorem allLeadOn_joinAllRuns (stmts : List (Nested Straight)) :
    allLeadOn (Nested.outlineAll id (Nested.joinAllRuns stmts)) =
      allLeadOn (Nested.outlineAll id stmts) := by
  have empty (rest : List (Nested Straight)) :
      (Nested.outlineAll id (Nested.joinAllRuns rest)).isEmpty =
        (Nested.outlineAll id rest).isEmpty := by
    rw [isEmpty_outlineAll, isEmpty_outlineAll, isEmpty_joinAllRuns]
  induction stmts using Nested.inductionAll with
  | nil => rfl
  | leaf instrs rest ih =>
    rw [Nested.joinAllRuns, allLeadOn_joinRun]
    exact allLeadOn_cons rfl (empty rest) ih
  | ifElse condition ifTrue ifFalse rest first second ih =>
    refine allLeadOn_cons ?_ (empty rest) ih
    simp only [Nested.joinRuns, Nested.outline, leadsOn, first, second]
  | loop condition body rest inner ih => exact allLeadOn_cons rfl (empty rest) ih
  | function name parameters body rest inner ih => exact allLeadOn_cons rfl (empty rest) ih

theorem loopsBack_joinAllRuns (stmts : List (Nested Straight)) :
    (Nested.outlineAll id (Nested.joinAllRuns stmts)).head?.any loopsBack =
      (Nested.outlineAll id stmts).head?.any loopsBack := by
  cases stmts with
  | nil => rfl
  | cons s rest =>
    cases s with
    | leaf instrs =>
      obtain ⟨run, others, same⟩ := exists_joinRun instrs (Nested.joinAllRuns rest)
      rw [Nested.joinAllRuns, same]
      rfl
    | loop condition body => exact allLeadOn_joinAllRuns body
    | _ => rfl

end Stack

end Wabbit
