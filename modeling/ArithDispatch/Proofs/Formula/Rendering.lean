import ArithDispatch.Formula.ReversePolish
import ArithDispatch.Proofs.Formula.Tree

/-! Infix renderings of trees. However many parentheses a rendering has beyond those that it needs,
rearranging its tokens gives the post-order listing of the tree. -/
namespace ArithDispatch.Formula

/-- An optional sign, then digits and points. -/
def Numeral.IsPlain (number : Numeral) : Prop :=
  ∃ sign digits, number.text.toList = sign ++ digits ∧ (sign = [] ∨ sign = ['+'] ∨ sign = ['-']) ∧
    ∀ c ∈ digits, Token.isNumberChar c = true

/-- The tokens write the tree where only operators that bind at least as tightly as `level` may stand
without parentheses. A left operand may bind as tightly as its operator, a right one has to bind
tighter, and parentheses may stand around everything. -/
inductive Renders : Nat → Tree → List Token → Prop
  | number {level : Nat} {number : Numeral} : number.IsPlain →
      Renders level (.leaf number) [.number number.text]
  | operation {level : Nat} {op : Operator} {left right : Tree} {before after : List Token} :
      level ≤ op.precedence → Renders op.precedence left before →
      Renders (op.precedence + 1) right after →
      Renders level (.node op left right) (before ++ .operator op :: after)
  | parentheses {level : Nat} {tree : Tree} {tokens : List Token} : Renders 0 tree tokens →
      Renders level tree (.leftParen :: (tokens ++ [.rightParen]))

/-- The innermost held item is no operator that binds at least as tightly as `level`. -/
def Fenced (level : Nat) (held : List Held) : Prop :=
  ∀ op below, held = .operator op :: below → op.precedence < level

namespace Fenced
variable {level : Nat} {held : List Held} {op : Operator} {pending : List Operator}

theorem nil (level : Nat) : Fenced level [] := by
  intro op below h
  cases h

theorem parenthesis (level : Nat) (held : List Held) : Fenced level (.parenthesis :: held) := by
  intro op below h
  cases h

theorem operator (op : Operator) (held : List Held) :
    Fenced (op.precedence + 1) (.operator op :: held) := by
  intro other below h
  cases h
  exact Nat.lt_succ_self _

theorem mono (h : Fenced level held) {higher : Nat} (hle : level ≤ higher) : Fenced higher held := by
  intro op below he
  exact Nat.lt_of_lt_of_le (h op below he) hle

/-- What waits inside the fence is written before an operator is held; the fence itself stays. -/
theorem yields (h : Fenced level held) (hop : level ≤ op.precedence)
    (hp : ∀ other ∈ pending, op.precedence ≤ other.precedence) :
    (pending.map Held.operator ++ held).takeWhile (·.yieldsTo op) = pending.map Held.operator ∧
      (pending.map Held.operator ++ held).dropWhile (·.yieldsTo op) = held := by
  have hall : ∀ item ∈ pending.map Held.operator, item.yieldsTo op = true := by
    intro item hm
    obtain ⟨other, ho, rfl⟩ := List.mem_map.mp hm
    exact decide_eq_true (hp other ho)
  rw [List.takeWhile_append_of_pos hall, List.dropWhile_append_of_pos hall]
  cases held with
  | nil => exact ⟨List.append_nil _, rfl⟩
  | cons first below =>
    have hstays : first.yieldsTo op = false := by
      cases first with
      | parenthesis => rfl
      | operator other =>
        have := h other below rfl
        exact decide_eq_false (by omega)
    simp [hstays]

end Fenced

/-- A closing parenthesis writes what waits since the opening one. -/
theorem closes (pending : List Operator) (held : List Held) :
    (pending.map Held.operator ++ .parenthesis :: held).takeWhile (· != .parenthesis) =
        pending.map Held.operator ∧
      (pending.map Held.operator ++ .parenthesis :: held).dropWhile (· != .parenthesis) =
        .parenthesis :: held := by
  have hall : ∀ item ∈ pending.map Held.operator, (item != .parenthesis) = true := by
    intro item hm
    obtain ⟨op, _, rfl⟩ := List.mem_map.mp hm
    rfl
  rw [List.takeWhile_append_of_pos hall, List.dropWhile_append_of_pos hall]
  simp

private theorem map_token (pending : List Operator) :
    (pending.map Held.operator).map Held.token = pending.map Token.operator := by
  rw [List.map_map]
  rfl

private theorem map_append (result : Except Fault (List Token)) (before after : List Token) :
    (result.map (after ++ ·)).map (before ++ ·) = result.map (before ++ after ++ ·) := by
  cases result with
  | error fault => rfl
  | ok tokens => simp [Except.map]

/-- Of a rendering some part of the listing is written at once, and the operators that are left wait
inside what was held before. -/
theorem Renders.exists_written {level : Nat} {tree : Tree} {tokens : List Token}
    (h : Renders level tree tokens) : ∃ (written : List Token) (pending : List Operator),
      written ++ pending.map Token.operator = tree.listing ∧
      (∀ op ∈ pending, level ≤ op.precedence) ∧
      ∀ held rest, Fenced level held → rearrange held (tokens ++ rest) =
        (rearrange (pending.map Held.operator ++ held) rest).map (written ++ ·) := by
  induction h with
  | number _ =>
    refine ⟨_, [], List.append_nil _, by simp, ?_⟩
    intro held rest _
    rfl
  | @operation level op left right before after hle _ _ ihl ihr =>
    obtain ⟨wl, pl, hl, hpl, hleft⟩ := ihl
    obtain ⟨wr, pr, hr, hpr, hright⟩ := ihr
    refine ⟨wl ++ (pl.map Token.operator ++ wr), pr ++ [op], ?_, ?_, ?_⟩
    · rw [Tree.listing, ← hl, ← hr]
      simp
    · intro other hm
      rcases List.mem_append.mp hm with hm | hm
      · have := hpr other hm
        omega
      · rw [List.mem_singleton.mp hm]
        exact hle
    · intro held rest hf
      obtain ⟨htake, hdrop⟩ := hf.yields hle hpl
      have hheld : (pr ++ [op]).map Held.operator ++ held = pr.map Held.operator ++ .operator op :: held := by
        simp
      calc rearrange held (before ++ .operator op :: after ++ rest)
          = (rearrange (pl.map Held.operator ++ held) (.operator op :: (after ++ rest))).map (wl ++ ·) := by
            rw [List.append_assoc, hleft held _ (hf.mono hle), List.cons_append]
        _ = ((rearrange (.operator op :: held) (after ++ rest)).map (pl.map Token.operator ++ ·)).map
              (wl ++ ·) := by
            rw [rearrange, htake, hdrop, map_token]
        _ = (rearrange ((pr ++ [op]).map Held.operator ++ held) rest).map
              (wl ++ (pl.map Token.operator ++ wr) ++ ·) := by
            rw [hright _ rest (.operator op held), hheld, map_append, map_append, List.append_assoc]
  | @parentheses level tree tokens _ ih =>
    obtain ⟨written, pending, hw, _, hinner⟩ := ih
    refine ⟨tree.listing, [], List.append_nil _, by simp, ?_⟩
    intro held rest _
    obtain ⟨htake, hdrop⟩ := closes pending held
    calc rearrange held (.leftParen :: (tokens ++ [.rightParen]) ++ rest)
        = rearrange (.parenthesis :: held) (tokens ++ .rightParen :: rest) := by
          rw [List.cons_append, rearrange, List.append_assoc, List.singleton_append]
      _ = (rearrange (pending.map Held.operator ++ .parenthesis :: held) (.rightParen :: rest)).map
            (written ++ ·) := hinner _ _ (.parenthesis 0 held)
      _ = (rearrange held rest).map (tree.listing ++ ·) := by
          rw [rearrange, htake, hdrop, map_token, map_append, hw]

theorem Renders.rearrange_eq {level : Nat} {tree : Tree} {tokens : List Token}
    (h : Renders level tree tokens) : rearrange [] tokens = .ok tree.listing := by
  obtain ⟨written, pending, hw, _, hr⟩ := h.exists_written
  have hall := hr [] [] (.nil level)
  rw [List.append_nil, List.append_nil] at hall
  rw [hall, ← hw]
  simp [rearrange, Except.map, Held.token]

end ArithDispatch.Formula
