import Cal.Proofs.Grammar.Sentence
import Mathlib.Data.List.Iterate

/-!
# Expanding the first item

A leftmost derivation replaces the first item of a sequence. `expand next` does one such step: a
rule becomes its production, and of two alternatives the kind `next` decides which one stands.
Sequences are taken apart as they appear, so that what stands first is always a token, a rule or a
choice.

* `Unfolds`: what is kept when items take the place of others, whatever comes behind them.
* `unfolds_expand`, `unfolds_of_mem_iterate`: any number of expansions is such a replacement.
-/

namespace Cal

/-- The parts of a form in sequence. -/
def Form.parts : Form → List Form
  | empty => []
  | both first second => first.parts ++ second.parts
  | form => [form]

/-- The parts of a form, each at the same depth. -/
def Form.itemsAt (depth : Nat) (form : Form) : List Item := form.parts.map fun part => ⟨depth, part⟩

/-- Items as they stand when so many more bodies are open around them. -/
def raise (depth : Nat) (items : List Item) : List Item :=
  items.map fun item => ⟨depth + item.depth, item.form⟩

/-- Replaces the first item: a rule by its production, a choice by the alternative that `next`
selects. -/
def expand (next : TokenKind) : List Item → List Item
  | ⟨depth, .rule rule⟩ :: items => rule.body.itemsAt depth ++ items
  | ⟨depth, .either left right⟩ :: items =>
    if next ∈ left.firsts then left.itemsAt (depth + left.bodies) ++ items
    else right.itemsAt (depth + right.bodies) ++ items
  | items => items

variable {kind next : TokenKind} {kinds : List TokenKind} {form : Form} {forms : List Form} {depth : Nat}
  {before after items rest : List Item} {marks : List Mark}

theorem derives_parts : Derives (form.parts ++ forms) kinds ↔ Derives (form :: forms) kinds := by
  induction form generalizing forms kinds with
  | empty => exact derives_empty.symm
  | both first second ihFirst ihSecond =>
    rw [Form.parts, List.append_assoc, ihFirst, derives_both]
    constructor
    · intro h
      obtain ⟨pre, post, rfl, hpre, hpost⟩ := derives_split [_] h
      exact hpre.append (ihSecond.1 hpost)
    · intro h
      obtain ⟨pre, post, rfl, hpre, hpost⟩ := derives_split [_] h
      exact hpre.append (ihSecond.2 hpost)
  | token | rule | either => rfl

theorem predicts_parts (h : Predicts (⟨depth, form⟩ :: items) marks) :
    Predicts (form.itemsAt depth ++ items) marks := by
  induction form generalizing items marks with
  | empty => exact nests_empty.1 h
  | both first second ihFirst ihSecond =>
    have hfirst := ihFirst (nests_both.1 h)
    obtain ⟨pre, post, rfl, hpost, hother⟩ := hfirst.split _
    have := hother _ post rfl (ihSecond hpost)
    simpa [Form.itemsAt, Form.parts] using this
  | token | rule | either => exact h

theorem mem_firstsOf_parts : kind ∈ firstsOf (form.parts ++ forms) ↔ kind ∈ firstsOf (form :: forms) := by
  induction form generalizing forms with
  | empty => simp [Form.parts, mem_firstsOf_cons, Form.firsts, Form.firstsBy, Form.nullable]
  | both first second ihFirst ihSecond =>
    rw [Form.parts, List.append_assoc, ihFirst, firstsOf_both, mem_firstsOf_cons, mem_firstsOf_cons,
      ihSecond]
  | token | rule | either => rfl

theorem Tidy.parts (h : Tidy kind (form :: forms)) : Tidy kind (form.parts ++ forms) := by
  induction form generalizing forms with
  | empty => exact h.tail
  | both first second ihFirst ihSecond =>
    have hfirst := h.both
    rw [Form.parts, List.append_assoc]
    refine ihFirst ⟨hfirst.1, ?_, ihSecond hfirst.2.2⟩
    rw [mem_firstsOf_parts]
    exact hfirst.2.1
  | token | rule | either => exact h

theorem formsOf_itemsAt_append : formsOf (form.itemsAt depth ++ items) = form.parts ++ formsOf items := by
  simp [formsOf, Form.itemsAt, Function.comp_def]

theorem raise_itemsAt_append {more : Nat} :
    raise depth (form.itemsAt more ++ items) = form.itemsAt (depth + more) ++ raise depth items := by
  simp [raise, Form.itemsAt]

theorem formsOf_raise_append : formsOf (raise depth items ++ rest) = formsOf items ++ formsOf rest := by
  simp [formsOf, raise, Function.comp_def]

/-- The items `after` stand for what `before` derives from `next` on: they derive no more, whatever
comes behind them, and no less of what one kind of lookahead finds. -/
structure Unfolds (next : TokenKind) (before after : List Item) : Prop where
  derives (forms : List Form) (kinds : List TokenKind) :
    Derives (formsOf after ++ forms) kinds → Derives (formsOf before ++ forms) kinds
  predicts (depth : Nat) (rest : List Item) (marks : List Mark) :
    (kindsOf marks).head? = some next → Predicts (raise depth before ++ rest) marks →
      Predicts (raise depth after ++ rest) marks
  firsts (forms : List Form) : firstsOf (formsOf after ++ forms) ⊆ firstsOf (formsOf before ++ forms)
  tidy (forms : List Form) :
    Tidy .leftParen (formsOf before ++ forms) → Tidy .leftParen (formsOf after ++ forms)

theorem Unfolds.refl : Unfolds next items items :=
  ⟨fun _ _ h => h, fun _ _ _ _ h => h, fun _ _ h => h, fun _ h => h⟩

theorem Unfolds.trans {between : List Item} (h : Unfolds next before between)
    (hafter : Unfolds next between after) : Unfolds next before after where
  derives forms kinds hderives := h.derives forms kinds (hafter.derives forms kinds hderives)
  predicts depth rest marks hnext hbefore :=
    hafter.predicts depth rest marks hnext (h.predicts depth rest marks hnext hbefore)
  firsts forms _ hkind := h.firsts forms (hafter.firsts forms hkind)
  tidy forms hbefore := hafter.tidy forms (h.tidy forms hbefore)

/-- A form may stand in the place of the first one if it does so on its own. -/
theorem unfolds_parts {other : Form} {more : Nat}
    (hderives : ∀ forms kinds, Derives (other :: forms) kinds → Derives (form :: forms) kinds)
    (hpredicts : ∀ extra rest marks, (kindsOf marks).head? = some next →
      Predicts (⟨extra + depth, form⟩ :: rest) marks → Predicts (⟨extra + more, other⟩ :: rest) marks)
    (hfirsts : ∀ forms, firstsOf (other :: forms) ⊆ firstsOf (form :: forms))
    (htidy : ∀ forms, Tidy .leftParen (form :: forms) → Tidy .leftParen (other :: forms)) :
    Unfolds next (⟨depth, form⟩ :: items) (other.itemsAt more ++ items) where
  derives forms kinds h := by
    rw [formsOf_itemsAt_append, List.append_assoc] at h
    exact hderives _ _ (derives_parts.1 h)
  predicts extra rest marks hnext h := by
    rw [raise_itemsAt_append, List.append_assoc]
    exact predicts_parts (hpredicts _ _ _ hnext h)
  firsts forms kind h := by
    rw [formsOf_itemsAt_append, List.append_assoc] at h
    exact hfirsts _ (mem_firstsOf_parts.1 h)
  tidy forms h := by
    rw [formsOf_itemsAt_append, List.append_assoc]
    exact (htidy _ h).parts

/-- **One expansion keeps what the next kind admits.** -/
theorem unfolds_expand (next : TokenKind) (items : List Item) : Unfolds next items (expand next items) := by
  unfold expand
  split
  · -- a rule becomes its production
    rename_i depth rule items
    refine unfolds_parts (fun _ _ => .rule) (fun _ _ _ _ => nests_rule.1) (fun forms kind h => ?_)
      fun _ h => h.production (clear_body rule (by decide) (by decide))
    have hbody := mem_firstsOf_cons.1 h
    rw [nullable_body] at hbody
    exact mem_firstsOf_cons.2 (hbody.imp_left fun hkind => firsts_body rule hkind)
  · rename_i depth left right items
    -- a choice becomes its first alternative exactly if the next kind can begin that
    split
    · rename_i hnext
      refine unfolds_parts (fun _ _ => .left) (fun extra rest marks hhead h => ?_)
        (fun _ _ h => firstsOf_either.2 (.inl h)) fun _ h => h.left
      rcases nests_either.1 h with ⟨-, hleft⟩ | ⟨hpass, -⟩
      · rwa [← Nat.add_assoc]
      · exact absurd hnext (hpass next hhead)
    · rename_i hnext
      refine unfolds_parts (fun _ _ => .right) (fun extra rest marks hhead h => ?_)
        (fun _ _ h => firstsOf_either.2 (.inr h)) fun _ h => h.right
      rcases nests_either.1 h with ⟨⟨kind, hkind, hleft⟩, -⟩ | ⟨-, hright⟩
      · rw [hhead] at hkind
        cases hkind
        exact absurd hleft hnext
      · rwa [← Nat.add_assoc]
  · exact .refl

/-- **Any number of expansions** keeps what the next kind admits. -/
theorem unfolds_of_mem_iterate {n : Nat} (h : after ∈ List.iterate (expand next) before n) :
    Unfolds next before after := by
  induction n generalizing before with
  | zero => simp at h
  | succ n ih =>
    rcases List.mem_cons.1 h with rfl | h
    · exact .refl
    · exact (unfolds_expand next before).trans (ih h)

end Cal
