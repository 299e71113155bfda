import Mathlib.Data.List.Basic

/-!
# Lists kept in line with a sequence of nodes

An update takes each node of the new sequence to the first element left that
matches it, creates an element where none does, and lets the element take over
what the node says. The elements that are left at the end are destroyed. Finding
a match may fail; the callbacks work on a surrounding state.
-/

namespace Allwinner.Library

structure ListModel (α ν ε τ : Type*) where
  typeMatches : ν → Bool
  matching : α → ν → Except ε Bool
  create : ν → α
  update : α → ν → τ → α × τ
  destroy : α → τ → τ

namespace ListModel

variable {α ν ε τ : Type*} (M : ListModel α ν ε τ)

/-- The first element that matches the node, and the elements left then. -/
def claim (node : ν) : List α → Except ε (Option α × List α)
  | [] => .ok (none, [])
  | a :: as =>
    match M.matching a node with
    | .error e => .error e
    | .ok true => .ok (some a, as)
    | .ok false => (claim node as).map fun (found, left) => (found, a :: left)

/-- `update_from_node`. -/
def updateFromNode : List ν → List α → τ → Except ε (List α × τ)
  | [], existing, t => .ok ([], existing.foldl (fun t a => M.destroy a t) t)
  | node :: nodes, existing, t =>
    if M.typeMatches node then
      match M.claim node existing with
      | .error e => .error e
      | .ok (found, left) =>
        let (a, t) := M.update (found.getD (M.create node)) node t
        (updateFromNode nodes left t).map fun (as, t) => (a :: as, t)
    else updateFromNode nodes existing t

/-- The element matches the node. -/
def agrees (node : ν) (a : α) : Bool :=
  match M.matching a node with
  | .ok b => b
  | .error _ => false

/-- The elements left after the nodes took theirs. -/
def left (existing : List α) : List ν → List α
  | [] => existing
  | node :: nodes =>
    if M.typeMatches node then left (existing.eraseP (M.agrees node)) nodes else left existing nodes

/-- The element a node takes. -/
def taken (existing : List α) (node : ν) : α := (existing.find? (M.agrees node)).getD (M.create node)

/-- Each node with the element it takes. -/
def pairs (existing : List α) : List ν → List (α × ν)
  | [] => []
  | node :: nodes =>
    if M.typeMatches node then
      (M.taken existing node, node) :: pairs (existing.eraseP (M.agrees node)) nodes
    else pairs existing nodes

section Laws

variable {M} {existing : List α} {node : ν} {nodes : List ν} {t : τ}

theorem claim_ok {r : Option α × List α} (h : M.claim node existing = .ok r) :
    r = (existing.find? (M.agrees node), existing.eraseP (M.agrees node)) := by
  induction existing generalizing r with
  | nil =>
    simp only [claim, Except.ok.injEq] at h
    exact h.symm
  | cons a as ih =>
    unfold claim at h
    split at h
    · cases h
    · rename_i hm
      have ha : M.agrees node a = true := by simp [agrees, hm]
      simp only [Except.ok.injEq] at h
      simp [ha, ← h]
    · rename_i hm
      have ha : M.agrees node a = false := by simp [agrees, hm]
      cases hc : M.claim node as with
      | error e => simp [hc, Except.map] at h
      | ok r' =>
        simp only [hc, Except.map, Except.ok.injEq] at h
        simp [ha, ← h, ih hc]

/-- An update that gets through lets each node's element take over the node, one after the other, and
destroys the elements left. -/
theorem updateFromNode_ok {r : List α × τ} (h : M.updateFromNode nodes existing t = .ok r)
    {f : α → ν → α} (hf : ∀ a node t, (M.update a node t).1 = f a node) :
    r.1 = (M.pairs existing nodes).map (fun p => f p.1 p.2) ∧
    r.2 = (M.left existing nodes).foldl (fun t a => M.destroy a t)
      ((M.pairs existing nodes).foldl (fun t p => (M.update p.1 p.2 t).2) t) := by
  induction nodes generalizing existing t r with
  | nil =>
    simp only [updateFromNode, Except.ok.injEq] at h
    simp [← h, pairs, left]
  | cons node nodes ih =>
    unfold updateFromNode at h
    by_cases htype : M.typeMatches node
    · simp only [htype, if_true] at h
      cases hc : M.claim node existing with
      | error e => simp [hc] at h
      | ok c =>
        have hclaim := claim_ok hc
        subst hclaim
        rw [hc] at h
        dsimp only at h
        cases hrest : M.updateFromNode nodes (existing.eraseP (M.agrees node))
            (M.update (M.taken existing node) node t).2 with
        | error e =>
          rw [taken] at hrest
          simp [hrest, Except.map] at h
        | ok r' =>
          obtain ⟨hpairs, henv⟩ := ih hrest
          rw [taken] at hrest
          simp only [hrest, Except.map, Except.ok.injEq] at h
          simp only [← h, pairs, htype, if_true, List.map_cons, List.foldl_cons, left, ← henv, ← hpairs]
          simp [← hf _ _ t, taken]
    · simp only [htype, Bool.false_eq_true, if_false] at h
      simpa [pairs, left, htype] using ih h

/-- A position of a list with a head is the head or a position of the tail. -/
theorem exists_split_cons {Q : List ν → ν → Prop} :
    (∃ pre x post, node :: nodes = pre ++ x :: post ∧ Q pre x) ↔
      Q [] node ∨ ∃ pre x post, nodes = pre ++ x :: post ∧ Q (node :: pre) x := by
  constructor
  · rintro ⟨pre, x, post, he, hq⟩
    cases pre with
    | nil =>
      obtain ⟨rfl, rfl⟩ := List.cons.inj he
      exact .inl hq
    | cons y pre =>
      obtain ⟨rfl, rfl⟩ := List.cons.inj he
      exact .inr ⟨pre, x, post, rfl, hq⟩
  · rintro (hq | ⟨pre, x, post, rfl, hq⟩)
    · exact ⟨[], node, nodes, rfl, hq⟩
    · exact ⟨node :: pre, x, post, rfl, hq⟩

/-- An update fails where no match can be found for a node among the elements left for it. -/
theorem updateFromNode_error_iff : (∃ e, M.updateFromNode nodes existing t = .error e) ↔
    ∃ pre node post, nodes = pre ++ node :: post ∧ M.typeMatches node = true ∧
      ∃ e, M.claim node (M.left existing pre) = .error e := by
  induction nodes generalizing existing t with
  | nil => simp [updateFromNode]
  | cons node nodes ih =>
    rw [exists_split_cons (Q := fun pre node => M.typeMatches node = true ∧
      ∃ e, M.claim node (M.left existing pre) = .error e)]
    unfold updateFromNode
    by_cases htype : M.typeMatches node
    · simp only [htype, if_true, true_and, left]
      cases hc : M.claim node existing with
      | error e => simp
      | ok c =>
        have hclaim := claim_ok hc
        subst hclaim
        simp only [reduceCtorEq, exists_false, false_or]
        rw [← ih (t := (M.update (M.taken existing node) node t).2), taken]
        cases M.updateFromNode nodes (existing.eraseP (M.agrees node))
          (M.update ((existing.find? (M.agrees node)).getD (M.create node)) node t).2 <;> simp [Except.map]
    · simp [htype, ih, left]

theorem left_sublist : (M.left existing nodes).Sublist existing := by
  induction nodes generalizing existing with
  | nil => exact .refl _
  | cons node nodes ih =>
    unfold left
    split
    · exact ih.trans List.eraseP_sublist
    · exact ih

/-- A node takes a new element or one that matches. -/
theorem mem_pairs {x : α × ν} (h : x ∈ M.pairs existing nodes) :
    x.1 = M.create x.2 ∨ x.1 ∈ existing ∧ M.agrees x.2 x.1 = true := by
  induction nodes generalizing existing with
  | nil => cases h
  | cons node nodes ih =>
    unfold pairs at h
    split at h
    · rcases List.mem_cons.mp h with rfl | h
      · unfold taken
        cases hfind : existing.find? (M.agrees node) with
        | none => exact .inl rfl
        | some a => exact .inr ⟨List.mem_of_find?_eq_some hfind, List.find?_some hfind⟩
      · exact (ih h).imp_right fun ⟨hmem, hagrees⟩ => ⟨List.mem_of_mem_eraseP hmem, hagrees⟩
    · exact ih h

/-- An existing element is taken by a node or left. -/
theorem mem_left_or_pairs {a : α} (h : a ∈ existing) :
    a ∈ M.left existing nodes ∨ ∃ x ∈ M.pairs existing nodes, x.1 = a := by
  induction nodes generalizing existing with
  | nil => exact .inl h
  | cons node nodes ih =>
    unfold left pairs
    by_cases htype : M.typeMatches node
    · simp only [htype, if_true]
      cases hfind : existing.find? (M.agrees node) with
      | none =>
        have hsame : existing.eraseP (M.agrees node) = existing :=
          List.eraseP_of_forall_not fun a ha => by simpa using List.find?_eq_none.mp hfind a ha
        rw [hsame]
        rcases ih h with hl | ⟨x, hx, hxa⟩
        · exact .inl hl
        · exact .inr ⟨x, .tail _ hx, hxa⟩
      | some b =>
        have hb : M.taken existing node = b := by simp [taken, hfind]
        by_cases hab : a = b
        · exact .inr ⟨_, .head _, hb.trans hab.symm⟩
        · have hmem : a ∈ existing.eraseP (M.agrees node) := by
            obtain ⟨hpb, pre, post, rfl, hpre⟩ := List.find?_eq_some_iff_append.mp hfind
            rw [List.eraseP_append_right _ (by simpa using hpre), List.eraseP_cons_of_pos hpb]
            simpa [hab] using h
          rcases ih hmem with hl | ⟨x, hx, hxa⟩
          · exact .inl hl
          · exact .inr ⟨x, .tail _ hx, hxa⟩
    · simp only [htype, Bool.false_eq_true, if_false]
      exact ih h

/-- The nodes that take an element are those of a type the model is about. -/
theorem pairs_snd : (M.pairs existing nodes).map Prod.snd = nodes.filter M.typeMatches := by
  induction nodes generalizing existing with
  | nil => rfl
  | cons node nodes ih =>
    unfold pairs
    split
    · rename_i h
      simp [h, ih]
    · rename_i h
      simp [h, ih]

end Laws

end ListModel

end Allwinner.Library
