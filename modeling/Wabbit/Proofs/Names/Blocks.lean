import Wabbit.Proofs.Flow.Labels
import Wabbit.Proofs.Names.Registers
import Wabbit.Tac.Entry

/-!
The names of blocks. All blocks of a linked program are numbered in the order of the text, and a
block that receives arguments has a name apart from the others.
-/

namespace Wabbit

open Ast (Symbol isBlockName)

/-- Of elements with different keys, only one has the key of a given one. -/
theorem filter_key_eq {α β : Type} [DecidableEq α] [DecidableEq β] {key : α → β} {xs : List α}
    (distinct : (xs.map key).Nodup) {x : α} (member : x ∈ xs) :
    xs.filter (fun y => key y = key x) = [x] := by
  have same : ∀ y ∈ xs, decide (key y = key x) = decide (y = x) := by
    intro y inside
    have only := List.inj_on_of_nodup_map distinct inside member
    exact decide_eq_decide.mpr ⟨only, congrArg key⟩
  rw [List.filter_congr same, List.filter_eq, List.count_eq_one_of_mem distinct.of_map member]
  rfl

/-- The name of the n-th block of a program. -/
def blockName (n : Nat) : String := "L" ++ toString n

theorem blockName_injective : Function.Injective blockName := by
  intro m n same
  have digits := congrArg String.toList same
  simp only [blockName, String.toList_append] at digits
  exact toString_injective (String.toList_inj.mp (List.append_cancel_left digits))

theorem blockName_ne_entryName (n : Nat) : blockName n ≠ Label.entryName := by
  intro same
  have start := congrArg (fun name => name.toList.head?) same
  simp [blockName, Label.entryName] at start

namespace Labels

/-- Numbers some labels. -/
def number (labels : Labels) (n : Nat) : List Label → Labels
  | [] => labels
  | label :: rest => (labels.rename label (blockName n)).number (n + 1) rest

@[simp]
theorem size_rename (labels : Labels) (label : Label) (name : String) :
    (labels.rename label name).names.size = labels.names.size := Array.size_setIfInBounds

theorem size_number (labels : Labels) (n : Nat) (numbered : List Label) :
    (labels.number n numbered).names.size = labels.names.size := by
  induction numbered generalizing labels n with
  | nil => rfl
  | cons label rest ih => rw [number, ih, size_rename]

theorem bounded_rename {labels : Labels} {first : Label} {rest : List Label}
    (bounded : ∀ l ∈ first :: rest, l.id < labels.names.size) (name : String) :
    ∀ l ∈ rest, l.id < (labels.rename first name).names.size := by
  intro l member
  rw [size_rename]
  exact bounded l (List.mem_cons_of_mem _ member)

theorem nameOf_number_other {labels : Labels} {numbered : List Label} {label : Label}
    (bounded : ∀ l ∈ numbered, l.id < labels.names.size) (other : label ∉ numbered) (n : Nat) :
    (labels.number n numbered).nameOf label = labels.nameOf label := by
  induction numbered generalizing labels n with
  | nil => rfl
  | cons first rest ih =>
    have later := bounded_rename bounded (blockName n)
    rw [number, ih later (by simp_all), nameOf_rename labels first label _ (bounded first (by simp))]
    simp_all

/-- Different labels are numbered without a gap. -/
theorem map_nameOf_number {labels : Labels} {numbered : List Label}
    (bounded : ∀ l ∈ numbered, l.id < labels.names.size) (distinct : numbered.Nodup) (n : Nat) :
    numbered.map (labels.number n numbered).nameOf =
      (List.range' n numbered.length).map blockName := by
  induction numbered generalizing labels n with
  | nil => rfl
  | cons first rest ih =>
    obtain ⟨unique, distinct⟩ := List.nodup_cons.mp distinct
    have later := bounded_rename bounded (blockName n)
    have own := nameOf_rename labels first first (blockName n) (bounded first (by simp))
    rw [if_pos rfl] at own
    rw [number, List.map_cons, nameOf_number_other later unique, own, ih later distinct]
    rfl

/-- All labels that were there before have kept their names. -/
structure Extends (labels labels' : Labels) : Prop where
  grows : labels.names.size ≤ labels'.names.size
  keeps : ∀ label : Label, label.id < labels.names.size → labels'.nameOf label = labels.nameOf label

theorem Extends.refl (labels : Labels) : Extends labels labels := ⟨Nat.le_refl _, fun _ _ => rfl⟩

theorem Extends.trans {labels labels' labels'' : Labels} (first : Extends labels labels')
    (second : Extends labels' labels'') : Extends labels labels'' where
  grows := Nat.le_trans first.grows second.grows
  keeps label bounded := by
    rw [second.keeps label (Nat.lt_of_lt_of_le bounded first.grows), first.keeps label bounded]

theorem size_lt_make (labels : Labels) (name : String) :
    labels.names.size < (labels.make name).2.names.size := by
  simp [make]

theorem nameOf_make_self (labels : Labels) (name : String) :
    (labels.make name).2.nameOf (labels.make name).1 = name := by
  simp [make, nameOf]

theorem Extends.make (labels : Labels) (name : String) : Extends labels (labels.make name).2 where
  grows := Nat.le_of_lt (labels.size_lt_make name)
  keeps label bounded := (nameOf_make labels name label bounded).2

end Labels

theorem Items.relabel_eq_number (program : Items Stack.Block) (labels : Labels) :
    program.relabel labels = labels.number 0 program.blockLabels := by
  have all (blocks : List Stack.Block) (labels : Labels) (n : Nat) :
      (blocks.foldl (fun state block => (state.1.rename block.label state.2.take.1, state.2.take.2))
        (labels, ({ next := n } : LabelSupply))).1 =
        labels.number n (blocks.map Stack.Block.label) := by
    induction blocks generalizing labels n with
    | nil => rfl
    | cons block rest ih => exact ih _ _
  unfold Items.blockLabels
  rw [← List.map_flatMap]
  exact all _ labels 0

/-- The blocks of each function have names with a number, different from each other. -/
structure Items.IsNumbered (program : Items Stack.Block) (labels : Labels) : Prop where
  bounded : ∀ f ∈ program.functions, ∀ label ∈ f.body.map Stack.Block.label,
    label.id < labels.names.size
  named : ∀ f ∈ program.functions, ∀ label ∈ f.body.map Stack.Block.label,
    ∃ n, labels.nameOf label = blockName n
  distinct : ∀ f ∈ program.functions, ((f.body.map Stack.Block.label).map labels.nameOf).Nodup

/-- The blocks of a linked program are numbered after each other, from function to function. -/
theorem Items.relabel_isNumbered {program : Items (Stack.Nested Stack.Straight)}
    {linked : Items Stack.Block} {labelling : Labelling}
    (done : (program.groupBlocks.run {}).1.link.run (program.groupBlocks.run {}).2 =
      .ok (linked, labelling)) : linked.IsNumbered (linked.relabel labelling.labels) := by
  have made := link_groupBlocks_makes done
  have bounded : ∀ label ∈ linked.blockLabels, label.id < labelling.labels.names.size :=
    fun label member => (made.mem member).2
  have names := Labels.map_nameOf_number bounded made.nodup 0
  have inside {f : FunDef Stack.Block} (member : f ∈ linked.functions) {label : Label}
      (own : label ∈ f.body.map Stack.Block.label) : label ∈ linked.blockLabels :=
    List.mem_flatMap.mpr ⟨f, member, own⟩
  rw [relabel_eq_number]
  refine ⟨?_, ?_, ?_⟩
  · intro f member label own
    rw [Labels.size_number]
    exact bounded label (inside member own)
  · intro f member label own
    have everywhere := List.mem_map_of_mem
      (f := (labelling.labels.number 0 linked.blockLabels).nameOf) (inside member own)
    rw [names] at everywhere
    obtain ⟨n, -, same⟩ := List.mem_map.mp everywhere
    exact ⟨n, same.symm⟩
  · intro f member
    have all : (linked.blockLabels.map
        (labelling.labels.number 0 linked.blockLabels).nameOf).Nodup := by
      rw [names]
      exact List.Nodup.map blockName_injective List.nodup_range'
    generalize labelling.labels.number 0 linked.blockLabels = labels at all
    rw [blockLabels, List.map_flatMap] at all
    exact (List.nodup_flatMap.mp all).1 f member

namespace Tac

/-- The second function is the first one, or the first one behind a block that receives its
arguments. -/
def Entered (labels : Labels) (f g : FunDef Block) : Prop :=
  (g = f ∧ (f.parameters = [] ∨ f.body = [])) ∨
    ∃ entry first : Label, entry.id < labels.names.size ∧ labels.nameOf entry = Label.entryName ∧
      g = ⟨f.name, f.parameters.map incoming,
        ⟨entry, f.parameters.flatMap spill ++ [.jump first]⟩ :: f.body⟩

private theorem Entered.extend {labels labels' : Labels} {f g : FunDef Block}
    (entered : Entered labels f g)
    (larger : labels.Extends labels') : Entered labels' f g := by
  rcases entered with same | ⟨entry, first, bounded, named, same⟩
  · exact .inl same
  · refine .inr ⟨entry, first, Nat.lt_of_lt_of_le bounded larger.grows, ?_, same⟩
    rw [larger.keeps entry bounded, named]

theorem withEntryBlock_entered (f : FunDef Block) (labels : Labels) :
    labels.Extends (f.withEntryBlock.run labels).2 ∧
      Entered (f.withEntryBlock.run labels).2 f (f.withEntryBlock.run labels).1 := by
  obtain ⟨name, parameters, body⟩ := f
  cases parameters with
  | nil => exact ⟨.refl labels, .inl ⟨rfl, .inl rfl⟩⟩
  | cons parameter others =>
    cases body with
    | nil => exact ⟨.refl labels, .inl ⟨rfl, .inr rfl⟩⟩
    | cons first rest =>
      have named := labels.nameOf_make_self Label.entryName
      have bounded := labels.size_lt_make Label.entryName
      exact ⟨.make labels _, .inr ⟨_, first.label, bounded, named, rfl⟩⟩

end Tac

/-- Every function either stays as it is or gets a block in front, and no block changes its name. -/
theorem Items.withEntryBlocks_entered (program : Items Tac.Block) (labels : Labels) :
    labels.Extends (program.withEntryBlocks.run labels).2 ∧
      Items.Related (Tac.Entered (program.withEntryBlocks.run labels).2) program
        (program.withEntryBlocks.run labels).1 := by
  induction program generalizing labels with
  | nil => exact ⟨.refl labels, .nil⟩
  | cons item rest ih =>
    cases item with
    | global symbol => exact ⟨(ih labels).1, .cons (.global symbol) (ih labels).2⟩
    | function f =>
      obtain ⟨first, entered⟩ := Tac.withEntryBlock_entered f labels
      obtain ⟨second, others⟩ := ih (f.withEntryBlock.run labels).2
      exact ⟨first.trans second, .cons (.function (entered.extend second)) others⟩

end Wabbit
