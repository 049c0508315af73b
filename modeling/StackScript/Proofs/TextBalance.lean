import StackScript.Proofs.TextForms

/-!
# Balanced tokens

Whether tokens nest into forms depends on their parentheses alone. Reading from the left, at most as
many lists may be closed as have been opened, and at the end none may be open. Nesting fails at the
first list that is closed and not open, or else at the end if lists are left open.

Forms and balanced tokens correspond: the tokens of forms nest into these forms, and balanced tokens
are those of the forms that they nest into.

## Main definitions

* `ClosesOpened`: where some lists are open, tokens close only lists that are open.
* `Balanced`: tokens that close each list that they open, and no other.

## Main results

* `nestTokens_cases`: the three outcomes of nesting, by the parentheses.
* `formsOf_iff_balanced`: tokens nest into forms if they are balanced, and fail in two ways if not.
-/

namespace StackScript

/-! ### Open lists -/

/-- Where `opened` lists are open, tokens close only lists that are open. -/
def ClosesOpened (opened : Nat) (tokens : List TextToken) : Prop :=
  ∀ front, front <+: tokens → front.count .rparen ≤ opened + front.count .lparen

theorem closesOpened_nil (opened : Nat) : ClosesOpened opened [] := by
  rintro front hfront
  rw [List.prefix_nil.mp hfront]
  exact Nat.zero_le _

section Cons

variable {opened : Nat} {rest : List TextToken}

/-- Every beginning of a longer list is empty or starts with its first token. -/
theorem closesOpened_cons_iff {token : TextToken} :
    ClosesOpened opened (token :: rest) ↔ ∀ front, front <+: rest →
      (token :: front).count .rparen ≤ opened + (token :: front).count .lparen := by
  constructor
  · intro h front hfront
    exact h (token :: front) ((List.prefix_cons_inj token).mpr hfront)
  · intro h front hfront
    rcases List.prefix_cons_iff.mp hfront with rfl | ⟨front, rfl, hrest⟩
    · exact Nat.zero_le _
    · exact h front hrest

theorem closesOpened_lparen_cons :
    ClosesOpened opened (.lparen :: rest) ↔ ClosesOpened (opened + 1) rest := by
  rw [closesOpened_cons_iff]
  refine forall₂_congr fun front _ => ?_
  rw [List.count_cons_self, List.count_cons_of_ne (by decide), Nat.add_assoc, Nat.add_comm 1]

theorem closesOpened_rparen_cons :
    ClosesOpened (opened + 1) (.rparen :: rest) ↔ ClosesOpened opened rest := by
  rw [closesOpened_cons_iff]
  refine forall₂_congr fun front _ => ?_
  rw [List.count_cons_self, List.count_cons_of_ne (by decide)]
  omega

theorem not_closesOpened_rparen_cons : ¬ ClosesOpened 0 (.rparen :: rest) := by
  intro h
  have hfirst := h [.rparen] ((List.prefix_cons_inj _).mpr (List.nil_prefix))
  exact absurd hfirst (by decide)

/-- A token that is no parenthesis makes no difference. -/
theorem closesOpened_other_cons {token : TextToken} (hopen : token ≠ .lparen)
    (hclose : token ≠ .rparen) :
    ClosesOpened opened (token :: rest) ↔ ClosesOpened opened rest := by
  rw [closesOpened_cons_iff]
  refine forall₂_congr fun front _ => ?_
  rw [List.count_cons_of_ne hopen, List.count_cons_of_ne hclose]

end Cons

/-! ### Outcomes of nesting -/

/-- Nesting has three outcomes: a list is closed that is not open, lists are left open, or there are
forms. Which one it is depends on the parentheses and on how many lists were open. -/
theorem nestTokens_cases (outer : List (List Form)) (current : List Form)
    (tokens : List TextToken) :
    (¬ ClosesOpened outer.length tokens ∧
      nestTokens outer current tokens = .error .unbalancedClose) ∨
    (ClosesOpened outer.length tokens ∧
      outer.length + tokens.count .lparen ≠ tokens.count .rparen ∧
      nestTokens outer current tokens = .error .unbalancedOpen) ∨
    (ClosesOpened outer.length tokens ∧
      outer.length + tokens.count .lparen = tokens.count .rparen ∧
      ∃ forms, nestTokens outer current tokens = .ok forms) := by
  -- The lists around are the parentheses that are still open.
  induction tokens generalizing outer current with
  | nil =>
    cases outer with
    | nil => exact .inr (.inr ⟨closesOpened_nil _, rfl, _, rfl⟩)
    | cons around outer => exact .inr (.inl ⟨closesOpened_nil _, by simp, rfl⟩)
  | cons token rest ih =>
    cases token with
    | lparen =>
      have hcount : outer.length + (.lparen :: rest).count .lparen =
          (current :: outer).length + rest.count .lparen := by
        rw [List.count_cons_self, List.length_cons]
        omega
      rw [closesOpened_lparen_cons, hcount, List.count_cons_of_ne (by simp)]
      exact ih (current :: outer) []
    | rparen =>
      cases outer with
      | nil => exact .inl ⟨not_closesOpened_rparen_cons, rfl⟩
      | cons around outer =>
        -- the parenthesis closes the innermost list, which leaves one less to close
        have hcount : (around :: outer).length + rest.count .lparen = rest.count .rparen + 1 ↔
            outer.length + rest.count .lparen = rest.count .rparen := by
          rw [List.length_cons]
          omega
        rw [List.count_cons_self, List.count_cons_of_ne (by simp), hcount.ne, hcount,
          List.length_cons, closesOpened_rparen_cons]
        exact ih outer (.list current.reverse :: around)
    | atom name =>
      rw [closesOpened_other_cons (by simp) (by simp), List.count_cons_of_ne (by simp),
        List.count_cons_of_ne (by simp)]
      exact ih outer (.atom name :: current)
    | string data =>
      rw [closesOpened_other_cons (by simp) (by simp), List.count_cons_of_ne (by simp),
        List.count_cons_of_ne (by simp)]
      exact ih outer (.string data :: current)

/-! ### Balanced tokens -/

/-- Tokens that close each list that they open, and no other. -/
structure Balanced (tokens : List TextToken) : Prop where
  closed : ∀ front, front <+: tokens → front.count .rparen ≤ front.count .lparen
  count_eq : tokens.count .lparen = tokens.count .rparen

theorem closesOpened_zero_iff {tokens : List TextToken} : ClosesOpened 0 tokens ↔
    ∀ front, front <+: tokens → front.count .rparen ≤ front.count .lparen := by
  simp only [ClosesOpened, Nat.zero_add]

/-- Tokens nest into forms exactly if they are balanced. Forms are nested from the tokens that they
are written with, and from no others. There are two ways to fail: some beginning of the tokens
closes more lists than it opens, or no beginning does and the numbers differ in the end. -/
theorem formsOf_iff_balanced (tokens : List TextToken) :
    ((∃ forms, formsOf tokens = .ok forms) ↔ Balanced tokens) ∧
    (∀ forms, formsOf tokens = .ok forms ↔ Form.allTokens forms = tokens) ∧
    ((∃ e, formsOf tokens = .error e ∧ e.message? = some "Unbalanced ')'") ↔
      ∃ front, front <+: tokens ∧ front.count .lparen < front.count .rparen) ∧
    ((∃ e, formsOf tokens = .error e ∧ e.message? = some "Unbalanced '('") ↔
      (∀ front, front <+: tokens → front.count .rparen ≤ front.count .lparen) ∧
        tokens.count .lparen ≠ tokens.count .rparen) := by
  have hforms (forms : List Form) : formsOf tokens = .ok forms ↔ Form.allTokens forms = tokens :=
    ⟨allTokens_of_formsOf, fun h => h ▸ formsOf_allTokens forms⟩
  have hbalanced : Balanced tokens ↔
      ClosesOpened 0 tokens ∧ tokens.count .lparen = tokens.count .rparen := by
    rw [closesOpened_zero_iff]
    exact ⟨fun h => ⟨h.closed, h.count_eq⟩, fun h => ⟨h.1, h.2⟩⟩
  have hearly : (∃ front, front <+: tokens ∧ front.count .lparen < front.count .rparen) ↔
      ¬ ClosesOpened 0 tokens := by
    rw [closesOpened_zero_iff]
    simp only [not_forall, Nat.not_le, exists_prop]
  have hcases := nestTokens_cases [] [] tokens
  rw [List.length_nil, Nat.zero_add, ← formsOf] at hcases
  rw [hbalanced, hearly, ← closesOpened_zero_iff]
  refine ⟨?_, hforms, ?_⟩
  · rcases hcases with ⟨hnot, heq⟩ | ⟨-, hne, heq⟩ | ⟨hcloses, hcount, hok⟩
    · simp [heq, hnot]
    · simp [heq, hne]
    · exact iff_of_true hok ⟨hcloses, hcount⟩
  · rcases hcases with ⟨hnot, heq⟩ | ⟨hcloses, hne, heq⟩ | ⟨hcloses, hcount, forms, heq⟩
    · simp [heq, hnot, ReadError.message?]
    · simp [heq, hcloses, hne, ReadError.message?]
    · simp [heq, hcloses, hcount]

end StackScript
