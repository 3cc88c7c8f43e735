import ArithDispatch.Formula.Compile
import ArithDispatch.Proofs.Formula.Reading
import ArithDispatch.Proofs.Formula.Rendering

/-! Rendered trees as texts. White space between tokens is free, and every sign is read as what it was
written for: part of a number where an operand is due, an operator elsewhere. -/
namespace ArithDispatch.Formula
open Token (scan isNumberChar isSign startsNumber)

/-- The tokens in order, with any white space around them. -/
inductive Spaced : List Token → List Char → Prop
  | done {gap : List Char} : (∀ c ∈ gap, Text.isWhiteSpace c = true) → Spaced [] gap
  | token {gap cs : List Char} {token : Token} {tokens : List Token} :
      (∀ c ∈ gap, Text.isWhiteSpace c = true) → Spaced tokens cs →
      Spaced (token :: tokens) (gap ++ (token.text.toList ++ cs))

/-- Numbers and opening parentheses stand where an operand is due, and the other tokens elsewhere. -/
inductive InPlace : Bool → List Token → Prop
  | nil {due : Bool} : InPlace due []
  | number {number : Numeral} {rest : List Token} : number.IsPlain → InPlace false rest →
      InPlace true (.number number.text :: rest)
  | operator {op : Operator} {rest : List Token} : InPlace true rest →
      InPlace false (.operator op :: rest)
  | leftParen {rest : List Token} : InPlace true rest → InPlace true (.leftParen :: rest)
  | rightParen {rest : List Token} : InPlace false rest → InPlace false (.rightParen :: rest)

theorem Renders.inPlace {level : Nat} {tree : Tree} {tokens : List Token}
    (h : Renders level tree tokens) {rest : List Token} (hr : InPlace false rest) :
    InPlace true (tokens ++ rest) := by
  induction h generalizing rest with
  | number hn => exact .number hn hr
  | operation _ _ _ ihl ihr =>
    rw [List.append_assoc]
    apply ihl
    apply InPlace.operator
    exact ihr hr
  | parentheses _ ih =>
    rw [List.cons_append, List.append_assoc]
    apply InPlace.leftParen
    apply ih
    exact .rightParen hr

/-- No number runs on into what may follow an operand. -/
theorem startsNumber_of_spaced {tokens : List Token} {cs : List Char} (h : Spaced tokens cs)
    (hp : InPlace false tokens) : startsNumber cs = false := by
  cases h with
  | done hgap =>
    cases cs with
    | nil => rfl
    | cons c rest => exact startsNumber_of_isWhiteSpace (hgap c List.mem_cons_self) rest
  | @token gap cs token tokens hgap hs =>
    cases gap with
    | cons c rest => exact startsNumber_of_isWhiteSpace (hgap c List.mem_cons_self) _
    | nil =>
      cases hp with
      | @operator op => cases op <;> rfl
      | rightParen => rfl

private theorem ne_nil_of_reads {number : Numeral} {sign digits : List Char}
    (ht : number.text.toList = sign ++ digits) (hs : sign = [] ∨ sign = ['+'] ∨ sign = ['-']) :
    digits ≠ [] := by
  rintro rfl
  have hr := number.reads
  rw [Numeric.readFinite, ht, List.append_nil] at hr
  rcases hs with rfl | rfl | rfl <;> cases hr

theorem Numeral.IsPlain.writesNumber {number : Numeral} (h : number.IsPlain) :
    WritesNumber true number.text.toList := by
  obtain ⟨sign, digits, ht, hs, hd⟩ := h
  have hne := ne_nil_of_reads ht hs
  obtain ⟨c, rest, rfl⟩ := List.exists_cons_of_ne_nil hne
  have hc := hd c List.mem_cons_self
  rcases hs with rfl | rfl | rfl
  · exact ⟨c, rest, ht, fun d hm => hd d (List.mem_cons_of_mem _ hm), .inl hc⟩
  · exact ⟨'+', c :: rest, ht, hd, .inr ⟨rfl, by decide, hc⟩⟩
  · exact ⟨'-', c :: rest, ht, hd, .inr ⟨rfl, by decide, hc⟩⟩

/-- Tokens in their places are read from every text that spaces them. -/
theorem reading_of_spaced {due : Bool} {tokens : List Token} {cs : List Char} (hp : InPlace due tokens)
    (h : Spaced tokens cs) : Reading due tokens cs := by
  induction hp generalizing cs with
  | nil =>
    cases h with
    | done hgap =>
      rw [← List.append_nil cs]
      exact .gap hgap .done
  | number hn hp ih =>
    cases h with
    | token hgap hs => exact .gap hgap (.token ⟨hn.writesNumber, startsNumber_of_spaced hs hp⟩ (ih hs))
  | operator _ ih =>
    cases h with
    | token hgap hs => exact .gap hgap (.token (fun ⟨hdue, _⟩ => Bool.false_ne_true hdue) (ih hs))
  | leftParen _ ih =>
    cases h with
    | token hgap hs => exact .gap hgap (.token trivial (ih hs))
  | rightParen _ ih =>
    cases h with
    | token hgap hs => exact .gap hgap (.token trivial (ih hs))

theorem scan_of_spaced {due : Bool} {tokens : List Token} {cs : List Char} (hp : InPlace due tokens)
    (h : Spaced tokens cs) (offset : Nat) : scan offset due cs = .ok tokens :=
  (reading_of_spaced hp h).scan offset

/-- The compiler respects precedence, associativity and parentheses: every infix text of a tree, with
all the parentheses that it needs and any more, and with any spacing, compiles to what the tree
amounts to. -/
theorem compile_rendering {tree : Tree} {tokens : List Token} {text : String}
    (hr : Renders 0 tree tokens) (hs : Spaced tokens text.toList) :
    (∀ number, tree = .leaf number → compile text = .ok (.literal number.value)) ∧
    (tree.dividesByZero = true →
      ∃ fault, compile text = .error fault ∧ fault.failure = .semanticError "division by zero") ∧
    (∀ op left right, tree = .node op left right → tree.dividesByZero = false →
      compile text = .ok (.graph ⟨tree.nodes 0⟩) ∧
        tree.slot 0 = .reference (Graph.root ⟨tree.nodes 0⟩)) := by
  have hscan : Token.ofText text = .ok tokens := by
    have hp := hr.inPlace .nil
    rw [List.append_nil] at hp
    exact scan_of_spaced hp hs 0
  have hpolish : reversePolish text = .ok tree.listing := by
    have hne : ¬ tokens.isEmpty = true := by cases hr <;> simp
    rw [reversePolish, hscan]
    exact (if_neg hne).trans hr.rearrange_eq
  have hcompile : compile text = assemble tree.listing := by
    rw [compile, hpolish]
    rfl
  refine ⟨?_, ?_, ?_⟩
  · rintro number rfl
    rw [hcompile, Tree.assemble_listing rfl]
    rfl
  · intro hz
    rw [hcompile, Tree.assemble_listing_of_dividesByZero hz]
    exact ⟨_, rfl, rfl⟩
  · rintro op left right rfl hz
    rw [hcompile, Tree.assemble_listing hz]
    refine ⟨rfl, ?_⟩
    rw [Graph.root, Graph.size, Tree.length_nodes, Tree.size, Nat.add_sub_cancel, Tree.slot, Nat.zero_add]

/-- The second sign belongs to its number, and the product comes before the difference. -/
theorem compile_one_minus_product :
    let one : Numeral := ⟨"1", ⟨0x3FF0000000000000⟩, by decide +kernel⟩
    let two : Numeral := ⟨"2", ⟨0x4000000000000000⟩, by decide +kernel⟩
    let three : Numeral := ⟨"-3", ⟨0xC008000000000000⟩, by decide +kernel⟩
    let tree : Tree := .node .sub (.leaf one) (.node .mul (.leaf two) (.leaf three))
    compile "1-(2)* -3" = .ok (.graph ⟨[⟨.literal two.value, .mul, .literal three.value⟩,
      ⟨.literal one.value, .sub, .reference 0⟩]⟩) ∧ tree.slot 0 = .reference 1 := by
  intro one two three tree
  have hone : one.IsPlain := ⟨[], ['1'], by decide, .inl rfl, List.forall_mem_singleton.mpr (by decide)⟩
  have htwo : two.IsPlain := ⟨[], ['2'], by decide, .inl rfl, List.forall_mem_singleton.mpr (by decide)⟩
  have hthree : three.IsPlain := ⟨['-'], ['3'], by decide, .inr (.inr rfl),
    List.forall_mem_singleton.mpr (by decide)⟩
  have hr : Renders 0 tree [.number "1", .operator .sub, .leftParen, .number "2", .rightParen,
      .operator .mul, .number "-3"] := by
    have hfactor : Renders 2 (.leaf two) [.leftParen, .number "2", .rightParen] :=
      .parentheses (.number htwo)
    have hproduct := @Renders.operation 2 .mul _ _ _ _ (Nat.le_refl 2) hfactor (.number hthree)
    exact @Renders.operation 0 .sub _ _ _ _ (Nat.zero_le 1) (.number hone) hproduct
  have hs : Spaced [.number "1", .operator .sub, .leftParen, .number "2", .rightParen,
      .operator .mul, .number "-3"] "1-(2)* -3".toList := by
    have hspace : ∀ c ∈ [' '], Text.isWhiteSpace c = true :=
      List.forall_mem_singleton.mpr (by decide)
    have hnone : ∀ c ∈ ([] : List Char), Text.isWhiteSpace c = true := by simp
    exact .token hnone (.token hnone (.token hnone (.token hnone (.token hnone (.token hnone
      (.token hspace (.done hnone)))))))
  exact (compile_rendering hr hs).2.2 _ _ _ rfl rfl

end ArithDispatch.Formula
