import Mathlib.Data.List.Perm.Basic
import Mathlib.Data.List.Nodup
import Wabbit.Proofs.Flow.Layout

/-!
Where the labels of a program go. Of all labels that are made while its statements are grouped and
linked, every one is carried by exactly one block in the end.
-/

namespace Wabbit

open Stack

/-- The number of labels made so far. -/
def Labelling.size (l : Labelling) : Nat := l.labels.names.size

@[simp]
theorem Labelling.label_fresh (l : Labelling) : l.fresh.1 = ⟨l.size⟩ := rfl

@[simp]
theorem Labelling.size_fresh (l : Labelling) : l.fresh.2.size = l.size + 1 := Array.size_push ..

/-- The labels that are made on the way from one state to another. -/
def Labelling.between (l l' : Labelling) : List Label :=
  (List.range' l.size (l'.size - l.size)).map Label.mk

theorem Labelling.between_append {l m l' : Labelling} (first : l.size ≤ m.size)
    (second : m.size ≤ l'.size) : l.between m ++ m.between l' = l.between l' := by
  have split : l'.size - l.size = (m.size - l.size) + (l'.size - m.size) := by omega
  have start : m.size = l.size + (m.size - l.size) := (Nat.add_sub_cancel' first).symm
  rw [between, between, between, ← List.map_append, split, ← List.range'_append_1, ← start]

/-- The labels are those made on the way from one state to another, in the order of their making. -/
structure Labelling.MakesInOrder (l l' : Labelling) (labels : List Label) : Prop where
  grows : l.size ≤ l'.size
  each : labels = l.between l'

namespace Labelling.MakesInOrder

variable {l m l' : Labelling} {labels others : List Label}

theorem none (l : Labelling) : MakesInOrder l l [] := ⟨Nat.le_refl _, by simp [between]⟩

private theorem fresh (l : Labelling) : MakesInOrder l l.fresh.2 [l.fresh.1] :=
  ⟨by simp, by simp [between]⟩

theorem trans (first : MakesInOrder l m labels) (second : MakesInOrder m l' others) :
    MakesInOrder l l' (labels ++ others) := by
  refine ⟨Nat.le_trans first.grows second.grows, ?_⟩
  rw [first.each, second.each, between_append first.grows second.grows]

theorem size (made : MakesInOrder l l' labels) : l'.size = l.size + labels.length := by
  have := made.grows
  rw [made.each, between, List.length_map, List.length_range']
  omega

theorem getElem (made : MakesInOrder l l' labels) {k : Nat} (inside : k < labels.length) :
    labels[k] = ⟨l.size + k⟩ := by
  obtain ⟨-, rfl⟩ := made
  simp [between]

end Labelling.MakesInOrder

/-- The labels are those made on the way from one state to another, each of them once. -/
structure Labelling.Makes (l l' : Labelling) (labels : List Label) : Prop where
  grows : l.size ≤ l'.size
  each : labels.Perm (l.between l')

namespace Labelling.Makes

variable {l m l' : Labelling} {labels others : List Label}

theorem none (l : Labelling) : Makes l l [] := ⟨Nat.le_refl _, by simp [between]⟩

private theorem fresh (l : Labelling) : Makes l l.fresh.2 [l.fresh.1] :=
  ⟨by simp, by simp [between]⟩

private theorem ofInOrder (made : MakesInOrder l l' labels) : Makes l l' labels :=
  ⟨made.grows, .of_eq made.each⟩

theorem trans (first : Makes l m labels) (second : Makes m l' others) :
    Makes l l' (labels ++ others) := by
  refine ⟨Nat.le_trans first.grows second.grows, (first.each.append second.each).trans ?_⟩
  rw [between_append first.grows second.grows]

private theorem perm (made : Makes l l' labels) (same : others.Perm labels) : Makes l l' others :=
  ⟨made.grows, same.trans made.each⟩

theorem nodup (made : Makes l l' labels) : labels.Nodup := by
  refine made.each.nodup_iff.mpr (List.Nodup.map ?_ List.nodup_range')
  intro a b same
  exact congrArg Label.id same

theorem mem (made : Makes l l' labels) {label : Label} (member : label ∈ labels) :
    l.size ≤ label.id ∧ label.id < l'.size := by
  have inside := made.each.mem_iff.mp member
  simp only [between, List.mem_map, List.mem_range'_1] at inside
  obtain ⟨n, bounds, rfl⟩ := inside
  have := made.grows
  simp only
  omega

end Labelling.Makes

namespace Stack.Nested

mutual

/-- The labels of all blocks in a statement. -/
def labels : Nested Block → List Label
  | leaf block => [block.label]
  | ifElse _ ifTrue ifFalse => allLabels ifTrue ++ allLabels ifFalse
  | loop _ body => allLabels body
  | function _ _ body => allLabels body

def allLabels : List (Nested Block) → List Label
  | [] => []
  | s :: rest => s.labels ++ allLabels rest

end

private theorem labelAll_makesInOrder (stmts : List (Nested Straight)) (l : Labelling) :
    l.MakesInOrder ((labelAll stmts).run l).2 (allLabels ((labelAll stmts).run l).1) := by
  induction stmts using inductionAll generalizing l with
  | nil => exact .none l
  | leaf instrs rest ih => exact (Labelling.MakesInOrder.fresh l).trans (ih _)
  | ifElse condition ifTrue ifFalse rest first second ih =>
    exact ((first l).trans (second _)).trans (ih _)
  | loop condition body rest inner ih => exact (inner l).trans (ih _)
  | function name parameters body rest inner ih => exact (inner l).trans (ih _)

end Stack.Nested

namespace Flow

@[simp]
theorem label_closeBlock (block : Block) (next : Label) :
    (closeBlock block next).label = block.label := by
  unfold closeBlock
  split <;> rfl

/-- Every block of the input and every new label ends up at exactly one block. -/
theorem layAll_makes {next : Label} {stmts : List (Nested Block)} {l l' : Labelling} {out : Linked}
    (done : (layAll next stmts).run l = .ok (out, l')) :
    ∃ new, l.Makes l' new ∧
      (out.blocks.map Block.label).Perm (Nested.allLabels stmts ++ new) := by
  have arm {next : Label} {stmts : List (Nested Block)} {l l' : Labelling} {out : Linked}
      (inside : ∀ {l l' : Labelling} {out : Linked},
        (layAll next stmts).run l = .ok (out, l') → ∃ new, l.Makes l' new ∧
          (out.blocks.map Block.label).Perm (Nested.allLabels stmts ++ new))
      (done : (layArm next stmts).run l = .ok (out, l')) : ∃ new, l.Makes l' new ∧
        (out.blocks.map Block.label).Perm (Nested.allLabels stmts ++ new) := by
    rcases layArm_cases done with ⟨rfl, rfl, rfl⟩ | done
    · exact ⟨[l.fresh.1], .fresh l, .refl _⟩
    · exact inside done
  induction stmts using Nested.inductionAll generalizing next l l' out with
  | nil =>
    cases done
    exact ⟨[], .none l, .refl _⟩
  | leaf block stmts ih =>
    obtain ⟨rest, others, rfl⟩ := layAll_leaf done
    obtain ⟨new, made, same⟩ := ih others
    refine ⟨new, made, ?_⟩
    simpa [Nested.allLabels, Nested.labels] using same
  | ifElse condition ifTrue ifFalse stmts ih₁ ih₂ ih =>
    obtain ⟨rest, arm₁, arm₂, m, m₁, m₂, others, first, second, rfl, rfl⟩ := layAll_branch done
    obtain ⟨new, made, same⟩ := ih others
    obtain ⟨new₁, made₁, same₁⟩ := arm ih₁ first
    obtain ⟨new₂, made₂, same₂⟩ := arm ih₂ second
    refine ⟨_, ((made.trans made₁).trans made₂).trans (.fresh m₂), ?_⟩
    simp only [List.perm_iff_count, List.count_append] at same same₁ same₂ ⊢
    intro label
    simp [Nested.allLabels, Nested.labels, test, same, same₁, same₂, List.count_cons]
    omega
  | loop condition body stmts ih₁ ih =>
    obtain ⟨rest, inner, m, others, round, rfl⟩ := layAll_loop done
    obtain ⟨new, made, same⟩ := ih others
    obtain ⟨new₁, made₁, same₁⟩ := arm ih₁ round
    refine ⟨_, (made.trans (.fresh m)).trans made₁, ?_⟩
    simp only [List.perm_iff_count, List.count_append] at same same₁ ⊢
    intro label
    simp [Nested.allLabels, Nested.labels, test, same, same₁, List.count_cons]
    omega
  | function name parameters body stmts _ _ => exact absurd done layAll_function

theorem allLabels_append (front back : List (Nested Block)) :
    Nested.allLabels (front ++ back) = Nested.allLabels front ++ Nested.allLabels back := by
  induction front with
  | nil => rfl
  | cons s rest ih => simp [Nested.allLabels, ih]

private theorem linkFunction_makes {f : FunDef (Nested Block)} {g : FunDef Block} {l l' : Labelling}
    (done : (linkFunction f).run l = .ok (g, l')) :
    ∃ new, l.Makes l' new ∧
      (g.body.map Block.label).Perm (Nested.allLabels f.body ++ new) := by
  obtain ⟨before, last, linked, parts, -, others, rfl⟩ := linkFunction_inv done
  obtain ⟨new, made, same⟩ := layAll_makes others
  refine ⟨new, made, ?_⟩
  rw [parts, allLabels_append]
  simp only [List.perm_iff_count, FunDef.withBody, List.map_append, List.count_append] at same ⊢
  intro label
  simp only [same, Nested.allLabels, Nested.labels, List.map_cons, List.map_nil, List.append_nil]
  omega

end Flow

/-- The labels of all blocks in a program that is not linked yet. -/
def Items.nestedLabels (program : Items (Nested Block)) : List Label :=
  program.functions.flatMap fun f => Nested.allLabels f.body

/-- The labels of all blocks in a linked program. -/
def Items.blockLabels (program : Items Block) : List Label :=
  program.functions.flatMap fun f => f.body.map Block.label

/-- What a function becomes when its statements are grouped into blocks. -/
theorem Items.related_groupBlocks (program : Items (Nested Straight)) (l : Labelling) :
    Items.Related
      (fun f g => ∃ l, g = f.withBody ((Nested.labelAll (Nested.joinAllRuns f.body)).run l).1)
      program (program.groupBlocks.run l).1 := by
  rw [groupBlocks_eq]
  induction program generalizing l with
  | nil => exact .nil
  | cons item rest ih =>
    cases item with
    | global symbol => exact .cons (.global symbol) (ih l)
    | function f => exact .cons (.function ⟨l, rfl⟩) (ih _)

theorem Items.groupBlocks_makesInOrder (program : Items (Nested Straight)) (l : Labelling) :
    l.MakesInOrder (program.groupBlocks.run l).2 (program.groupBlocks.run l).1.nestedLabels := by
  rw [groupBlocks_eq]
  induction program generalizing l with
  | nil => exact .none l
  | cons item rest ih =>
    cases item with
    | global symbol => exact ih l
    | function f =>
      exact (Nested.labelAll_makesInOrder (Nested.joinAllRuns f.body) l).trans (ih _)

private theorem Items.link_makes {program : Items (Nested Block)} {linked : Items Block}
    {l l' : Labelling}
    (done : program.link.run l = .ok (linked, l')) :
    ∃ new, l.Makes l' new ∧ linked.blockLabels.Perm (program.nestedLabels ++ new) := by
  induction program generalizing linked l l' with
  | nil =>
    cases done
    exact ⟨[], .none l, .refl _⟩
  | cons item rest ih =>
    cases item with
    | global symbol =>
      obtain ⟨others, recursive, rfl⟩ := mapFunctionsM_global done
      obtain ⟨new, made, same⟩ := ih recursive
      exact ⟨new, made, same⟩
    | function f =>
      obtain ⟨g, others, u, own, recursive, rfl⟩ := mapFunctionsM_function done
      obtain ⟨new, made, same⟩ := Flow.linkFunction_makes own
      obtain ⟨new', made', same'⟩ := ih recursive
      refine ⟨new ++ new', made.trans made', ?_⟩
      simp only [List.perm_iff_count, List.count_append, blockLabels, nestedLabels] at same same' ⊢
      intro label
      simp only [functions_function, List.flatMap_cons, List.count_append, same, same']
      omega

/-- The labels of a linked program are all the labels that were made for it, each at one block. -/
theorem Items.link_groupBlocks_makes {program : Items (Nested Straight)} {linked : Items Block}
    {l l' : Labelling}
    (done : (program.groupBlocks.run l).1.link.run (program.groupBlocks.run l).2 = .ok (linked, l')) :
    l.Makes l' linked.blockLabels := by
  obtain ⟨new, made, same⟩ := link_makes done
  exact ((Labelling.Makes.ofInOrder (groupBlocks_makesInOrder program l)).trans made).perm same

end Wabbit
