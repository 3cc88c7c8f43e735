import ArithDispatch.Proofs.Formula.Balance
import ArithDispatch.Proofs.Formula.Listing
import ArithDispatch.Proofs.Formula.Spacing
import Mathlib.Data.List.TakeWhile

/-! The infix grammar against what compiles. A text whose tokens alternate between operands and
operators compiles exactly when the grammar derives them and no division is by the number zero. Nothing
asks for that alternation: tokens that are in reverse-Polish order already compile too. -/
namespace ArithDispatch.Formula
open Token (scan isNumberChar)

inductive Category where
  | expression | term | factor
  deriving DecidableEq, Repr

/-- The token lists of each category, with the tree that the derivation builds. A sum or a product
extends to the left, and only parentheses take an expression back to a factor. -/
inductive Derives : Category → Tree → List Token → Prop
  | term {tree : Tree} {tokens : List Token} : Derives .term tree tokens →
      Derives .expression tree tokens
  | sum {op : Operator} {left right : Tree} {before after : List Token} : op = .add ∨ op = .sub →
      Derives .expression left before → Derives .term right after →
      Derives .expression (.node op left right) (before ++ .operator op :: after)
  | factor {tree : Tree} {tokens : List Token} : Derives .factor tree tokens →
      Derives .term tree tokens
  | product {op : Operator} {left right : Tree} {before after : List Token} : op = .mul ∨ op = .div →
      Derives .term left before → Derives .factor right after →
      Derives .term (.node op left right) (before ++ .operator op :: after)
  | number {number : Numeral} : number.IsPlain → Derives .factor (.leaf number) [.number number.text]
  | parentheses {tree : Tree} {tokens : List Token} : Derives .expression tree tokens →
      Derives .factor tree (.leftParen :: (tokens ++ [.rightParen]))

/-- How tightly an operator has to bind to stand in the category without parentheses. -/
def Category.level : Category → Nat
  | expression => 1
  | term => 2
  | factor => 3

variable {level lower : Nat} {tree : Tree} {tokens front operand rest out : List Token} {held : List Held}

theorem Renders.mono (h : Renders level tree tokens) (hle : lower ≤ level) : Renders lower tree tokens := by
  cases h with
  | number hn => exact .number hn
  | operation hop hl hr => exact .operation (Nat.le_trans hle hop) hl hr
  | parentheses hi => exact .parentheses hi

theorem Derives.renders {category : Category} (h : Derives category tree tokens) :
    Renders category.level tree tokens := by
  induction h with
  | term _ ih => exact ih.mono (by decide)
  | factor _ ih => exact ih.mono (by decide)
  | sum hop _ _ ihl ihr => rcases hop with rfl | rfl <;> exact .operation (Nat.le_refl 1) ihl ihr
  | product hop _ _ ihl ihr => rcases hop with rfl | rfl <;> exact .operation (Nat.le_refl 2) ihl ihr
  | number hn => exact .number hn
  | parentheses _ ih => exact .parentheses (ih.mono (by decide))

/-- A rendering is an expression, and it is a term or a factor where only tighter operators may stand. -/
theorem Renders.derives (h : Renders level tree tokens) : Derives .expression tree tokens ∧
    (2 ≤ level → Derives .term tree tokens) ∧ (3 ≤ level → Derives .factor tree tokens) := by
  induction h with
  | number hn =>
    have hf := Derives.number hn
    exact ⟨.term (.factor hf), fun _ => .factor hf, fun _ => hf⟩
  | parentheses _ ih =>
    have hf := Derives.parentheses ih.1
    exact ⟨.term (.factor hf), fun _ => .factor hf, fun _ => hf⟩
  | @operation level op left right before after hle _ _ ihl ihr =>
    have sum (hop : op = .add ∨ op = .sub) (hp : op.precedence = 1) :
        Derives .expression (.node op left right) (before ++ .operator op :: after) :=
      .sum hop ihl.1 (ihr.2.1 (by omega))
    have product (hop : op = .mul ∨ op = .div) (hp : op.precedence = 2) :
        Derives .term (.node op left right) (before ++ .operator op :: after) :=
      .product hop (ihl.2.1 (by omega)) (ihr.2.2 (by omega))
    cases op with
    | add => exact ⟨sum (.inl rfl) rfl, fun h => absurd (Nat.le_trans h hle) (by decide),
        fun h => absurd (Nat.le_trans h hle) (by decide)⟩
    | sub => exact ⟨sum (.inr rfl) rfl, fun h => absurd (Nat.le_trans h hle) (by decide),
        fun h => absurd (Nat.le_trans h hle) (by decide)⟩
    | mul =>
      have hp := product (.inl rfl) rfl
      exact ⟨.term hp, fun _ => hp, fun h => absurd (Nat.le_trans h hle) (by decide)⟩
    | div =>
      have hp := product (.inr rfl) rfl
      exact ⟨.term hp, fun _ => hp, fun h => absurd (Nat.le_trans h hle) (by decide)⟩

/-- Whether an operand begins with this token. -/
def Token.startsOperand : Token → Bool
  | number _ | leftParen => true
  | operator _ | rightParen => false

/-- Operators stand between two operands, no two operands are adjacent, and no pair of parentheses is
empty: where an operand is due one begins, and nowhere else. -/
def alternates (due : Bool) : List Token → Bool
  | [] => !due
  | token :: rest => token.startsOperand == due && alternates token.leavesOperandDue rest

theorem Renders.alternating (h : Renders level tree tokens) (hr : alternates false rest = true) :
    alternates true (tokens ++ rest) = true := by
  induction h generalizing rest with
  | number _ => exact hr
  | operation _ _ _ ihl ihr =>
    rw [List.append_assoc]
    exact ihl (ihr hr)
  | parentheses _ ih =>
    rw [List.cons_append, List.append_assoc]
    apply ih
    exact hr

theorem Derives.alternating (h : Derives .expression tree tokens) : alternates true tokens = true := by
  have hr : alternates true (tokens ++ []) = true := h.renders.alternating rfl
  rwa [List.append_nil] at hr

/-- The tokens that were read up to where an operand is due, while `held` waits: each held operator has
its left operand in front of it. -/
inductive Pending : List Held → List Token → Prop
  | nil : Pending [] []
  | operator {held : List Held} {front before : List Token} {op : Operator} {left : Tree} :
      Pending held front → Fenced op.precedence held → Renders op.precedence left before →
      Pending (.operator op :: held) (front ++ (before ++ [.operator op]))
  | parenthesis {held : List Held} {front : List Token} : Pending held front →
      Pending (.parenthesis :: held) (front ++ [.leftParen])

/-- When held operators give way, each joins its left operand to what was read behind it. -/
theorem Pending.collapse (h : Pending held front) (hr : Renders level tree operand)
    (hf : Fenced level held) (bound : Nat) (hb : bound ≤ level) (yields : Held → Bool)
    (hp : yields .parenthesis = false) (ho : ∀ op, yields (.operator op) = decide (bound ≤ op.precedence)) :
    ∃ front' tree' operand', front ++ operand = front' ++ operand' ∧
      Pending (held.dropWhile yields) front' ∧ Fenced bound (held.dropWhile yields) ∧
      Renders bound tree' operand' := by
  induction h generalizing level tree operand with
  | nil => exact ⟨[], tree, operand, rfl, .nil, .nil bound, hr.mono hb⟩
  | @parenthesis held front hpend _ =>
    rw [List.dropWhile_cons_of_neg (by simp [hp])]
    exact ⟨_, tree, operand, rfl, .parenthesis hpend, .parenthesis bound held, hr.mono hb⟩
  | @operator held front before op left hpend hfence hleft ih =>
    by_cases hy : bound ≤ op.precedence
    · have hjoin : Renders op.precedence (.node op left tree) (before ++ .operator op :: operand) :=
        .operation (Nat.le_refl _) hleft (hr.mono (hf op held rfl))
      obtain ⟨front', tree', operand', he, hrest⟩ := ih hjoin hfence hy
      rw [List.dropWhile_cons_of_pos (by simp [ho, hy])]
      refine ⟨front', tree', operand', ?_, hrest⟩
      rw [← he]
      simp
    · rw [List.dropWhile_cons_of_neg (by simp [ho, hy])]
      refine ⟨_, tree, operand, rfl, .operator hpend hfence hleft, ?_, hr.mono hb⟩
      intro other below h
      cases h
      exact Nat.lt_of_not_le hy

/-- Every operator gives way to what stands behind a factor. -/
theorem Fenced.factor (held : List Held) : Fenced Category.factor.level held := by
  intro op below _
  cases op <;> decide

/-- Up to the innermost open parenthesis everything joins into one operand. -/
theorem Pending.close (h : Pending held front) (hr : Renders Category.factor.level tree operand) :
    ∃ front' tree' operand', front ++ operand = front' ++ operand' ∧
      Pending (held.dropWhile (· != .parenthesis)) front' ∧ Renders 0 tree' operand' := by
  obtain ⟨front', tree', operand', he, hpend, _, hren⟩ :=
    h.collapse hr (.factor held) 0 (Nat.zero_le _) (· != .parenthesis) rfl fun _ => rfl
  exact ⟨front', tree', operand', he, hpend, hren⟩

/-- Tokens that alternate and whose parentheses match are a rendering: read on from where an operand is
due, or from behind an operand that may stand everywhere. -/
theorem Pending.exists_renders (hr : rearrange held tokens = .ok out)
    (hn : ∀ text, .number text ∈ tokens → ∃ number : Numeral, number.text = text ∧ number.IsPlain)
    (h : Pending held front) :
    (alternates true tokens = true → ∃ tree, Renders 0 tree (front ++ tokens)) ∧
    ∀ inner operand, (∀ level, Renders level inner operand) → alternates false tokens = true →
      ∃ tree, Renders 0 tree (front ++ operand ++ tokens) := by
  induction tokens generalizing held front out with
  | nil =>
    refine ⟨fun ha => (by cases ha), fun inner operand hi _ => ?_⟩
    obtain ⟨front', tree', operand', he, hpend, hren⟩ := h.close (hi _)
    rw [rearrange] at hr
    split at hr
    · cases hr
    · next hno =>
      have hall : ∀ item ∈ held, (item != .parenthesis) = true :=
        fun item hm => bne_iff_ne.mpr fun he => hno (List.elem_iff.mpr (he ▸ hm))
      rw [List.dropWhile_eq_nil_iff.mpr hall] at hpend
      cases hpend
      exact ⟨tree', by rw [he, List.append_nil]; exact hren⟩
  | cons token rest ih =>
    have hn' : ∀ text, .number text ∈ rest → ∃ number : Numeral, number.text = text ∧ number.IsPlain :=
      fun text hm => hn text (List.mem_cons_of_mem _ hm)
    cases token with
    | number text =>
      refine ⟨fun ha => ?_, fun _ _ _ ha => (by cases ha)⟩
      obtain ⟨number, rfl, hplain⟩ := hn text List.mem_cons_self
      obtain ⟨_, hrest, _⟩ := exists_ok_of_map hr
      have hall := (ih hrest hn' h).2 (.leaf number) [.number number.text] (fun _ => .number hplain) ha
      simpa using hall
    | operator op =>
      refine ⟨fun ha => (by cases ha), fun inner operand hi ha => ?_⟩
      obtain ⟨_, hrest, _⟩ := exists_ok_of_map hr
      obtain ⟨front', tree', operand', he, hpend, hfence, hren⟩ := h.collapse (hi _) (.factor held)
        op.precedence (by cases op <;> decide) (·.yieldsTo op) rfl fun _ => rfl
      obtain ⟨tree, ht⟩ := (ih hrest hn' (.operator hpend hfence hren)).1 ha
      refine ⟨tree, ?_⟩
      rw [he]
      simpa using ht
    | leftParen =>
      refine ⟨fun ha => ?_, fun _ _ _ ha => (by cases ha)⟩
      have hall := (ih hr hn' (.parenthesis h)).1 ha
      simpa using hall
    | rightParen =>
      refine ⟨fun ha => (by cases ha), fun inner operand hi ha => ?_⟩
      obtain ⟨front', tree', operand', he, hpend, hren⟩ := h.close (hi _)
      rw [rearrange] at hr
      split at hr
      · cases hr
      · next first outer hdrop =>
        obtain ⟨_, hrest, _⟩ := exists_ok_of_map hr
        rw [hdrop, eq_parenthesis_of_dropWhile hdrop] at hpend
        cases hpend with
        | parenthesis houter =>
          obtain ⟨tree, ht⟩ := (ih hrest hn' houter).2 tree' _ (fun _ => .parentheses hren) ha
          refine ⟨tree, ?_⟩
          rw [he]
          simpa using ht

/-- No number gets lost on the way to reverse-Polish order. -/
theorem number_mem_of_rearrange {text : String} (hr : rearrange held tokens = .ok out)
    (hm : .number text ∈ tokens) : .number text ∈ out := by
  apply (perm_of_rearrange hr).1.symm.subset
  exact List.mem_append_right _ (List.mem_filter.mpr ⟨hm, rfl⟩)

theorem Tree.exists_value {text : String} (hm : .number text ∈ tree.listing) :
    ∃ value, Numeric.readFinite text = some value := by
  induction tree with
  | leaf number =>
    cases List.mem_singleton.mp hm
    exact ⟨number.value, number.reads⟩
  | node op left right ihl ihr =>
    rcases List.mem_append.mp hm with hm | hm
    · exact ihl hm
    · rcases List.mem_append.mp hm with hm | hm
      · exact ihr hm
      · cases List.mem_singleton.mp hm

/-- What can be put together has numbers that read as such. -/
theorem exists_value_of_assemble {compiled : Compiled} {text : String}
    (ha : assemble tokens = .ok compiled) (hm : .number text ∈ tokens) :
    ∃ value, Numeric.readFinite text = some value := by
  obtain ⟨tree, rfl, _⟩ := exists_listing_of_assemble ha
  exact tree.exists_value hm

theorem WritesNumber.isPlain {due : Bool} {number : Numeral} (h : WritesNumber due number.text.toList) :
    number.IsPlain := by
  obtain ⟨first, digits, ht, hd, hf | ⟨_, hf, _⟩⟩ := h
  · exact ⟨[], _, ht, .inl rfl, List.forall_mem_cons.mpr ⟨hf, hd⟩⟩
  · refine ⟨[first], _, ht, .inr ?_, hd⟩
    rw [Token.isSign, Bool.or_eq_true, beq_iff_eq, beq_iff_eq] at hf
    rcases hf with rfl | rfl
    · exact .inl rfl
    · exact .inr rfl

/-- The scanner makes numbers of digits and points, with at most one sign in front. -/
theorem isPlain_of_scan {offset : Nat} {due : Bool} {cs : List Char} (hs : scan offset due cs = .ok tokens)
    {number : Numeral} (hm : .number number.text ∈ tokens) : number.IsPlain := by
  obtain ⟨before, after, rfl⟩ := List.append_of_mem hm
  obtain ⟨_, _, _, _, hwrites, _⟩ := (reading_of_scan hs).exists_place
  exact hwrites.isPlain

theorem rearrange_of_compile {text : String} {compiled : Compiled} (ht : Token.ofText text = .ok tokens)
    (hc : compile text = .ok compiled) :
    ∃ out, rearrange [] tokens = .ok out ∧ assemble out = .ok compiled := by
  simp only [compile, reversePolish, ht, bind, Except.bind] at hc
  split at hc
  · cases hc
  · next out hr =>
    split at hr
    · cases hr
    · exact ⟨out, hr, hc⟩

theorem compile_of_renders {text : String} (ht : Token.ofText text = .ok tokens)
    (hr : Renders level tree tokens) : compile text = assemble tree.listing := by
  have hne : ¬ tokens.isEmpty = true := by cases hr <;> simp
  simp only [compile, reversePolish, ht, bind, Except.bind, if_neg hne, hr.rearrange_eq]

/-- Of the texts in which operands and operators alternate, those compile that the infix grammar derives
without a division by the number zero, and what they compile to is what their derivation amounts to. -/
theorem compile_alternating_iff_derives (text : String) (compiled : Compiled) :
    (compile text = .ok compiled ∧
      ∃ tokens, Token.ofText text = .ok tokens ∧ alternates true tokens = true) ↔
    ∃ tokens tree, Token.ofText text = .ok tokens ∧ Derives .expression tree tokens ∧
      tree.dividesByZero = false ∧ compiled = tree.compiled := by
  constructor
  · rintro ⟨hc, tokens, ht, halt⟩
    obtain ⟨out, hr, ha⟩ := rearrange_of_compile ht hc
    have hn : ∀ text, .number text ∈ tokens →
        ∃ number : Numeral, number.text = text ∧ number.IsPlain := by
      intro word hm
      obtain ⟨value, hv⟩ := exists_value_of_assemble ha (number_mem_of_rearrange hr hm)
      exact ⟨⟨word, value, hv⟩, rfl, isPlain_of_scan ht hm⟩
    obtain ⟨tree, hren⟩ := (Pending.nil.exists_renders hr hn).1 halt
    rw [List.nil_append] at hren
    rw [compile_of_renders ht hren] at hc
    cases hz : tree.dividesByZero with
    | true =>
      rw [Tree.assemble_listing_of_dividesByZero hz] at hc
      cases hc
    | false =>
      rw [Tree.assemble_listing hz] at hc
      exact ⟨tokens, tree, ht, hren.derives.1, hz, (Except.ok.inj hc).symm⟩
  · rintro ⟨tokens, tree, ht, hd, hz, rfl⟩
    refine ⟨?_, tokens, ht, hd.alternating⟩
    rw [compile_of_renders ht hd.renders, Tree.assemble_listing hz]

/-- A text that is in reverse-Polish order already compiles, although no infix grammar derives it: where
an operator stands is never looked at. -/
theorem compile_reverse_polish_product :
    compile "1 2 *" = .ok (.graph ⟨[⟨.literal ⟨0x3FF0000000000000⟩, .mul,
      .literal ⟨0x4000000000000000⟩⟩]⟩) ∧
    ¬ ∃ tokens tree, Token.ofText "1 2 *" = .ok tokens ∧ Derives .expression tree tokens := by
  refine ⟨by decide +kernel, ?_⟩
  rintro ⟨tokens, tree, ht, hd⟩
  have hscan : Token.ofText "1 2 *" = .ok [.number "1", .number "2", .operator .mul] := by
    decide +kernel
  cases hscan.symm.trans ht
  cases hd.alternating

end ArithDispatch.Formula
